import ConceptLaws.Proofs.Arithmetic.Lexing
import ConceptLaws.Proofs.Arithmetic.Operations
import ConceptLaws.Proofs.Outcome

/-! The grammar of expressions and its meaning.

    sum       := product | sum ("+" | "-") product
    product   := signed | product ("*" | "/" | "%") signed
    signed    := "-" signed | power
    power     := primary | primary "^" signed
    primary   := number | text | operand | name | name "(" ")" | name "(" arguments ")" | "(" sum ")"
    arguments := sum | sum "," arguments

A derivation is a tree of this grammar; sums and products lean to the left. It has the tokens at its
leaves, a depth to which signed operands nest in it, and a meaning that is put together from those
of its parts. The evaluator succeeds exactly on the token lists that have a derivation with a
meaning. -/

namespace ConceptLaws.Arithmetic

inductive Category where
  | sum | product | signed | power | primary | arguments

/-- What is meant by the phrases of a category. -/
abbrev Category.Meaning : Category → Type
  | arguments => List Datum
  | _ => Datum

def Operator.IsAdditive (operation : Operator) : Prop := operation = .plus ∨ operation = .minus

def Operator.IsMultiplicative (operation : Operator) : Prop :=
  operation = .times ∨ operation = .dividedBy ∨ operation = .modulo

inductive Derivation : Category → Type
  | product (only : Derivation .product) : Derivation .sum
  | add (left : Derivation .sum) (operation : Operator) (additive : operation.IsAdditive)
      (right : Derivation .product) : Derivation .sum
  | signed (only : Derivation .signed) : Derivation .product
  | multiply (left : Derivation .product) (operation : Operator)
      (multiplicative : operation.IsMultiplicative) (right : Derivation .signed) :
      Derivation .product
  | negated (inner : Derivation .signed) : Derivation .signed
  | unsigned (only : Derivation .power) : Derivation .signed
  | primary (only : Derivation .primary) : Derivation .power
  | raised (base : Derivation .primary) (exponent : Derivation .signed) : Derivation .power
  | number (value : Float) : Derivation .primary
  | text (content : String) : Derivation .primary
  | operand (value : Datum) : Derivation .primary
  | constant (name : String) : Derivation .primary
  | emptyCall (name : String) : Derivation .primary
  | call (name : String) (values : Derivation .arguments) : Derivation .primary
  | enclosed (inner : Derivation .sum) : Derivation .primary
  | last (only : Derivation .sum) : Derivation .arguments
  | more (first : Derivation .sum) (others : Derivation .arguments) : Derivation .arguments

namespace Derivation

/-- The tokens that the tree derives. -/
@[simp] def tokens {category : Category} : Derivation category → List Token
  | product only => only.tokens
  | add left operation _ right => left.tokens ++ .operator operation :: right.tokens
  | signed only => only.tokens
  | multiply left operation _ right => left.tokens ++ .operator operation :: right.tokens
  | negated inner => .operator .minus :: inner.tokens
  | unsigned only => only.tokens
  | primary only => only.tokens
  | raised base exponent => base.tokens ++ .operator .power :: exponent.tokens
  | number value => [.number value]
  | text content => [.text content]
  | operand value => [.operand value]
  | constant name => [.name name]
  | emptyCall name => [.name name, .opening, .closing]
  | call name values => .name name :: .opening :: (values.tokens ++ [.closing])
  | enclosed inner => .opening :: (inner.tokens ++ [.closing])
  | last only => only.tokens
  | more first others => first.tokens ++ .comma :: others.tokens

/-- How many signed operands stand inside one another. -/
@[simp] def nesting {category : Category} : Derivation category → Nat
  | product only => only.nesting
  | add left _ _ right => max left.nesting right.nesting
  | signed only => only.nesting
  | multiply left _ _ right => max left.nesting right.nesting
  | negated inner => inner.nesting + 1
  | unsigned only => only.nesting + 1
  | primary only => only.nesting
  | raised base exponent => max base.nesting exponent.nesting
  | number _ => 0
  | text _ => 0
  | operand _ => 0
  | constant _ => 0
  | emptyCall _ => 0
  | call _ values => values.nesting
  | enclosed inner => inner.nesting
  | last only => only.nesting
  | more first others => max first.nesting others.nesting

def Means {category : Category} : Derivation category → category.Meaning → Prop
  | product only, value => only.Means value
  | add left operation _ right, value => ∃ first second, left.Means first ∧ right.Means second ∧
      Operates operation first second value
  | signed only, value => only.Means value
  | multiply left operation _ right, value => ∃ first second, left.Means first ∧
      right.Means second ∧ Operates operation first second value
  | negated inner, value => ∃ argument number, inner.Means argument ∧
      argument.asNumber? = some number ∧ value = .number (-number)
  | unsigned only, value => only.Means value
  | primary only, value => only.Means value
  | raised base exponent, value => ∃ first second, base.Means first ∧ exponent.Means second ∧
      Operates .power first second value
  | number content, value => value = .number content
  | text content, value => value = .text content
  | operand content, value => value = content
  | constant name, value => ∃ number, (name, number) ∈ constants ∧ value = .number number
  | emptyCall name, value => Applies name [] value
  | call name values, value => ∃ arguments, values.Means arguments ∧ Applies name arguments value
  | enclosed inner, value => inner.Means value
  | last only, values => ∃ value, only.Means value ∧ values = [value]
  | more first others, values => ∃ value rest, first.Means value ∧ others.Means rest ∧
      values = value :: rest

end Derivation

theorem signed_eq_power {limit depth : Nat} {tokens : List Token}
    (unsigned : ∀ others, tokens ≠ .operator .minus :: others) :
    signed limit (depth + 1) tokens = power (signed limit depth) limit tokens := by
  rw [signed.eq_3 limit tokens depth unsigned]

/-! ## What is read has a derivation -/

/-- What the reader returns is the meaning of a phrase whose tokens it took. -/
def Sound (category : Category) (depth : Nat)
    (read : List Token → Except Fault (category.Meaning × List Token)) : Prop :=
  ∀ tokens value rest, read tokens = .ok (value, rest) → ∃ tree : Derivation category,
    tree.tokens ++ rest = tokens ∧ tree.nesting ≤ depth ∧ tree.Means value

section Soundness

variable {signed : Reader} {limit depth : Nat}

/-- By induction on the turns: the phrase that was read so far grows to the left. -/
theorem productTail_sound (sound : Sound .signed depth signed) {turns : Nat} {left value : Datum}
    {tokens rest : List Token} (read : productTail signed turns left tokens = .ok (value, rest))
    (start : Derivation .product) (within : start.nesting ≤ depth) (means : start.Means left) :
    ∃ tree : Derivation .product, tree.tokens ++ rest = start.tokens ++ tokens ∧
      tree.nesting ≤ depth ∧ tree.Means value := by
  fun_induction productTail signed turns left tokens generalizing start value rest with
  | case1 turns left operation tokens multiplicative ih =>
    obtain ⟨⟨right, after⟩, operand, others⟩ := bind_eq_ok.1 read
    obtain ⟨total, computed, more⟩ := bind_eq_ok.1 others
    obtain ⟨tree, rfl, bounded, meant⟩ := sound _ _ _ operand
    have multiplicative : operation.IsMultiplicative := by
      simpa [Operator.IsMultiplicative, or_assoc] using multiplicative
    have other : operation ≠ .plus := by
      rcases multiplicative with rfl | rfl | rfl <;> decide
    rw [numeric_eq_combine other, combine_eq_ok_iff] at computed
    obtain ⟨grown, same, nested, means⟩ := ih after total more
      (start.multiply operation multiplicative tree) (max_le within bounded)
      ⟨left, right, means, meant, computed⟩
    exact ⟨grown, by simpa [Derivation.tokens] using same, nested, means⟩
  | case2 =>
    obtain ⟨rfl, rfl⟩ := Prod.mk.inj (Except.ok.inj read)
    exact ⟨start, rfl, within, means⟩
  | case3 =>
    obtain ⟨rfl, rfl⟩ := Prod.mk.inj (Except.ok.inj read)
    exact ⟨start, rfl, within, means⟩

theorem product_sound (sound : Sound .signed depth signed) :
    Sound .product depth (product signed limit) := by
  intro tokens value rest read
  obtain ⟨⟨first, after⟩, operand, others⟩ := bind_eq_ok.1 read
  obtain ⟨tree, rfl, bounded, meant⟩ := sound _ _ _ operand
  exact productTail_sound sound others (.signed tree) bounded meant

theorem sumTail_sound (sound : Sound .signed depth signed) {turns : Nat} {left value : Datum}
    {tokens rest : List Token} (read : sumTail signed limit turns left tokens = .ok (value, rest))
    (start : Derivation .sum) (within : start.nesting ≤ depth) (means : start.Means left) :
    ∃ tree : Derivation .sum, tree.tokens ++ rest = start.tokens ++ tokens ∧
      tree.nesting ≤ depth ∧ tree.Means value := by
  fun_induction sumTail signed limit turns left tokens generalizing start value rest with
  | case1 turns left operation tokens additive ih =>
    obtain ⟨⟨right, after⟩, operand, others⟩ := bind_eq_ok.1 read
    obtain ⟨total, computed, more⟩ := bind_eq_ok.1 others
    obtain ⟨tree, rfl, bounded, meant⟩ := product_sound sound _ _ _ operand
    have additive : operation.IsAdditive := by
      simpa [Operator.IsAdditive] using additive
    rw [combine_eq_ok_iff] at computed
    obtain ⟨grown, same, nested, means⟩ := ih after total more (start.add operation additive tree)
      (max_le within bounded) ⟨left, right, means, meant, computed⟩
    exact ⟨grown, by simpa [Derivation.tokens] using same, nested, means⟩
  | case2 =>
    obtain ⟨rfl, rfl⟩ := Prod.mk.inj (Except.ok.inj read)
    exact ⟨start, rfl, within, means⟩
  | case3 =>
    obtain ⟨rfl, rfl⟩ := Prod.mk.inj (Except.ok.inj read)
    exact ⟨start, rfl, within, means⟩

theorem sum_sound (sound : Sound .signed depth signed) : Sound .sum depth (sum signed limit) := by
  intro tokens value rest read
  obtain ⟨⟨first, after⟩, operand, others⟩ := bind_eq_ok.1 read
  obtain ⟨tree, rfl, bounded, meant⟩ := product_sound sound _ _ _ operand
  exact sumTail_sound sound others (.product tree) bounded meant

/-- The closing parenthesis is read with the arguments. -/
theorem argumentsTail_sound (sound : Sound .signed depth signed) {turns : Nat}
    {tokens rest : List Token} {values : List Datum}
    (read : argumentsTail signed limit turns tokens = .ok (values, rest)) :
    ∃ tree : Derivation .arguments, tree.tokens ++ .closing :: rest = tokens ∧
      tree.nesting ≤ depth ∧ tree.Means values := by
  induction turns generalizing tokens values rest with
  | zero => cases read
  | succ turns ih =>
    obtain ⟨⟨first, after⟩, argument, others⟩ := bind_eq_ok.1 read
    obtain ⟨tree, rfl, bounded, meant⟩ := sum_sound sound _ _ _ argument
    dsimp only at others
    split at others
    · cases others
    · obtain ⟨rfl, rfl⟩ := Prod.mk.inj (Except.ok.inj others)
      exact ⟨.last tree, rfl, bounded, first, meant, rfl⟩
    · obtain ⟨⟨later, last⟩, separated, done⟩ := bind_eq_ok.1 others
      obtain ⟨rfl, rfl⟩ := Prod.mk.inj (Except.ok.inj done)
      obtain ⟨more, rfl, nested, means⟩ := ih separated
      refine ⟨.more tree more, ?_, max_le bounded nested, first, later, meant, means, rfl⟩
      simp [Derivation.tokens]
    · cases others

theorem expectClose_eq_ok {tokens rest : List Token} (read : expectClose tokens = .ok rest) :
    tokens = .closing :: rest := by
  unfold expectClose at read
  split at read
  · cases read
  · rw [Except.ok.inj read]
  · cases read

theorem primary_sound (sound : Sound .signed depth signed) :
    Sound .primary depth (primary signed limit) := by
  intro tokens value rest read
  unfold primary at read
  split at read
  · cases read
  · rename_i content after
    obtain ⟨rfl, rfl⟩ := Prod.mk.inj (Except.ok.inj read)
    exact ⟨.number content, rfl, Nat.zero_le _, rfl⟩
  · rename_i content after
    obtain ⟨rfl, rfl⟩ := Prod.mk.inj (Except.ok.inj read)
    exact ⟨.text content, rfl, Nat.zero_le _, rfl⟩
  · rename_i content after
    obtain ⟨rfl, rfl⟩ := Prod.mk.inj (Except.ok.inj read)
    exact ⟨.operand content, rfl, Nat.zero_le _, rfl⟩
  · obtain ⟨⟨inner, after⟩, opened, closed⟩ := bind_eq_ok.1 read
    obtain ⟨last, closes, done⟩ := bind_eq_ok.1 closed
    obtain ⟨rfl, rfl⟩ := Prod.mk.inj (Except.ok.inj done)
    obtain ⟨tree, rfl, bounded, meant⟩ := sum_sound sound _ _ _ opened
    rw [expectClose_eq_ok closes]
    exact ⟨.enclosed tree, by simp [Derivation.tokens], bounded, meant⟩
  · rename_i name tokens
    obtain ⟨⟨values, after⟩, given, called⟩ := bind_eq_ok.1 read
    obtain ⟨total, computed, done⟩ := bind_eq_ok.1 called
    obtain ⟨rfl, rfl⟩ := Prod.mk.inj (Except.ok.inj done)
    rw [call_eq_ok_iff] at computed
    unfold arguments at given
    split at given
    · obtain ⟨rfl, rfl⟩ := Prod.mk.inj (Except.ok.inj given)
      exact ⟨.emptyCall name, rfl, Nat.zero_le _, computed⟩
    · obtain ⟨tree, rfl, bounded, meant⟩ := argumentsTail_sound sound given
      exact ⟨.call name tree, by simp [Derivation.tokens], bounded, values, meant, computed⟩
  · rename_i name after _
    obtain ⟨number, named, done⟩ := bind_eq_ok.1 read
    obtain ⟨rfl, rfl⟩ := Prod.mk.inj (Except.ok.inj done)
    exact ⟨.constant name, rfl, Nat.zero_le _, constant_eq_ok_iff.1 named⟩
  · cases read

theorem power_sound (sound : Sound .signed depth signed) :
    Sound .power depth (power signed limit) := by
  intro tokens value rest read
  obtain ⟨⟨base, after⟩, operand, others⟩ := bind_eq_ok.1 read
  obtain ⟨tree, rfl, bounded, meant⟩ := primary_sound sound _ _ _ operand
  dsimp only at others
  split at others
  · obtain ⟨⟨exponent, last⟩, raises, others⟩ := bind_eq_ok.1 others
    obtain ⟨total, computed, done⟩ := bind_eq_ok.1 others
    obtain ⟨rfl, rfl⟩ := Prod.mk.inj (Except.ok.inj done)
    obtain ⟨above, rfl, nested, means⟩ := sound _ _ _ raises
    rw [numeric_eq_combine (by decide), combine_eq_ok_iff] at computed
    refine ⟨.raised tree above, ?_, max_le bounded nested, base, exponent, meant, means, computed⟩
    simp [Derivation.tokens]
  · obtain ⟨rfl, rfl⟩ := Prod.mk.inj (Except.ok.inj others)
    exact ⟨.primary tree, rfl, bounded, meant⟩

/-- By induction on the room for nested operands. -/
theorem signed_sound (limit depth : Nat) : Sound .signed depth (Arithmetic.signed limit depth) := by
  induction depth with
  | zero =>
    intro tokens value rest read
    cases read
  | succ depth ih =>
    intro tokens value rest read
    by_cases minus : ∃ others, tokens = .operator .minus :: others
    · obtain ⟨others, rfl⟩ := minus
      obtain ⟨⟨argument, after⟩, operand, negates⟩ := bind_eq_ok.1 read
      obtain ⟨total, computed, done⟩ := bind_eq_ok.1 negates
      obtain ⟨rfl, rfl⟩ := Prod.mk.inj (Except.ok.inj done)
      obtain ⟨tree, rfl, bounded, meant⟩ := ih _ _ _ operand
      obtain ⟨number, reads, rfl⟩ := negate_eq_ok_iff.1 computed
      exact ⟨.negated tree, rfl, Nat.succ_le_succ bounded, argument, number, meant, reads, rfl⟩
    · rw [signed_eq_power fun others same => minus ⟨others, same⟩] at read
      obtain ⟨tree, same, bounded, meant⟩ := power_sound ih _ _ _ read
      exact ⟨.unsigned tree, same, Nat.succ_le_succ bounded, meant⟩

end Soundness

/-! ## What has a derivation is read -/

/-- The operators that would carry a phrase of the category on. -/
def Category.GoesOnWith : Category → Operator → Prop
  | sum, _ => True
  | product, operation => operation.IsMultiplicative ∨ operation = .power
  | signed, operation => operation = .power
  | power, operation => operation = .power
  | primary, _ => False
  | arguments, _ => False

/-- A phrase of the category may end in front of the tokens. A parenthesis would make a call of a
name. -/
def Category.Ends (category : Category) (rest : List Token) : Prop :=
  ∀ token ∈ rest.head?, token ≠ .opening ∧
    ∀ operation, token = .operator operation → ¬ category.GoesOnWith operation

theorem Category.ends_nil (category : Category) : category.Ends [] := nofun

theorem Category.ends_operator {category : Category} {operation : Operator}
    (other : ¬ category.GoesOnWith operation) (rest : List Token) :
    category.Ends (.operator operation :: rest) := by
  intro token first
  obtain rfl := Option.some.inj first
  refine ⟨nofun, fun operation same => ?_⟩
  obtain rfl := Token.operator.inj same
  exact other

theorem Category.Ends.mono {wide narrow : Category} {rest : List Token} (ends : wide.Ends rest)
    (fewer : ∀ operation, narrow.GoesOnWith operation → wide.GoesOnWith operation) :
    narrow.Ends rest :=
  fun token first => ⟨(ends token first).1, fun operation same goes =>
    (ends token first).2 operation same (fewer operation goes)⟩

theorem productTail_ends {signed : Reader} {turns : Nat} {value : Datum} {rest : List Token}
    (ends : Category.product.Ends rest) :
    productTail signed turns value rest = .ok (value, rest) := by
  unfold productTail
  split
  · rename_i operation others
    rw [if_neg]
    have stops := (ends _ rfl).2 operation rfl
    simpa [Category.GoesOnWith, Operator.IsMultiplicative, or_assoc] using
      fun goes => stops (Or.inl goes)
  · rfl

theorem sumTail_ends {signed : Reader} {limit turns : Nat} {value : Datum} {rest : List Token}
    (ends : Category.sum.Ends rest) :
    sumTail signed limit turns value rest = .ok (value, rest) := by
  unfold sumTail
  split
  · exact ((ends _ rfl).2 _ rfl trivial).elim
  · rfl

namespace Derivation

/-- No phrase starts with a closing parenthesis, and only sums, products and signed operands start
with an operator. -/
def StartsWith : Category → Token → Prop
  | .power, token => token ≠ .closing ∧ ∀ operation, token ≠ .operator operation
  | .primary, token => token ≠ .closing ∧ ∀ operation, token ≠ .operator operation
  | _, token => token ≠ .closing

theorem starts {category : Category} (tree : Derivation category) :
    ∃ first others, tree.tokens = first :: others ∧ StartsWith category first := by
  induction tree with
  | product _ ih => exact ih
  | add left operation _ right ih =>
    obtain ⟨first, others, same, starts⟩ := ih
    exact ⟨first, _, by rw [tokens, same]; rfl, starts⟩
  | signed _ ih => exact ih
  | multiply left operation _ right ih =>
    obtain ⟨first, others, same, starts⟩ := ih
    exact ⟨first, _, by rw [tokens, same]; rfl, starts⟩
  | negated => exact ⟨_, _, rfl, nofun⟩
  | unsigned _ ih =>
    obtain ⟨first, others, same, starts⟩ := ih
    exact ⟨first, others, same, starts.1⟩
  | primary _ ih => exact ih
  | raised base exponent ih =>
    obtain ⟨first, others, same, starts⟩ := ih
    exact ⟨first, _, by rw [tokens, same]; rfl, starts⟩
  | number => exact ⟨_, _, rfl, nofun, nofun⟩
  | text => exact ⟨_, _, rfl, nofun, nofun⟩
  | operand => exact ⟨_, _, rfl, nofun, nofun⟩
  | constant => exact ⟨_, _, rfl, nofun, nofun⟩
  | emptyCall => exact ⟨_, _, rfl, nofun, nofun⟩
  | call => exact ⟨_, _, rfl, nofun, nofun⟩
  | enclosed => exact ⟨_, _, rfl, nofun, nofun⟩
  | last _ ih => exact ih
  | more first others ih =>
    obtain ⟨token, later, same, starts⟩ := ih
    exact ⟨token, _, by rw [tokens, same]; rfl, starts⟩

/-- What is left of a phrase's tokens after it is read, for every room that is enough for it. A sum and
a product may go on after the phrase, so their loops are left where they stand: with a turn for every
token that is left. -/
def Reads (limit : Nat) {category : Category} (tree : Derivation category) : Prop :=
  ∀ depth value rest, tree.nesting ≤ depth → tree.Means value →
    (tree.tokens ++ rest).length < limit →
    match category, value with
    | .sum, value => Category.product.Ends rest → ∃ turns, limit ≤ turns + tree.tokens.length ∧
        Arithmetic.sum (Arithmetic.signed limit depth) limit (tree.tokens ++ rest) =
          sumTail (Arithmetic.signed limit depth) limit turns value rest
    | .product, value => Category.signed.Ends rest → ∃ turns, limit ≤ turns + tree.tokens.length ∧
        Arithmetic.product (Arithmetic.signed limit depth) limit (tree.tokens ++ rest) =
          productTail (Arithmetic.signed limit depth) turns value rest
    | .signed, value => Category.signed.Ends rest →
        Arithmetic.signed limit depth (tree.tokens ++ rest) = .ok (value, rest)
    | .power, value => Category.power.Ends rest →
        Arithmetic.power (Arithmetic.signed limit depth) limit (tree.tokens ++ rest) =
          .ok (value, rest)
    | .primary, value => Category.primary.Ends rest →
        Arithmetic.primary (Arithmetic.signed limit depth) limit (tree.tokens ++ rest) =
          .ok (value, rest)
    | .arguments, values => ∀ turns last, rest = .closing :: last → tree.tokens.length < turns →
        argumentsTail (Arithmetic.signed limit depth) limit turns (tree.tokens ++ rest) =
          .ok (values, last)

section Completeness

variable {limit depth : Nat} {rest : List Token}

theorem Reads.sum {tree : Derivation .sum} {value : Datum} (reads : tree.Reads limit)
    (within : tree.nesting ≤ depth) (means : tree.Means value)
    (short : (tree.tokens ++ rest).length < limit) (ends : Category.sum.Ends rest) :
    Arithmetic.sum (Arithmetic.signed limit depth) limit (tree.tokens ++ rest) =
      .ok (value, rest) := by
  obtain ⟨turns, -, read⟩ := reads depth value rest within means short
    (ends.mono fun _ _ => trivial)
  rw [read, sumTail_ends ends]

theorem Reads.product {tree : Derivation .product} {value : Datum} (reads : tree.Reads limit)
    (within : tree.nesting ≤ depth) (means : tree.Means value)
    (short : (tree.tokens ++ rest).length < limit) (ends : Category.product.Ends rest) :
    Arithmetic.product (Arithmetic.signed limit depth) limit (tree.tokens ++ rest) =
      .ok (value, rest) := by
  obtain ⟨turns, -, read⟩ := reads depth value rest within means short
    (ends.mono fun _ goes => Or.inr goes)
  rw [read, productTail_ends ends]

theorem reads_product {only : Derivation .product} (reads : only.Reads limit) :
    (product only).Reads limit := by
  intro depth value rest within means short ends
  refine ⟨limit, Nat.le_add_right _ _, ?_⟩
  have read := reads.product within means short ends
  unfold Arithmetic.sum
  rw [tokens, read]
  rfl

theorem reads_add {left : Derivation .sum} {operation : Operator} {additive : operation.IsAdditive}
    {right : Derivation .product} (leftReads : left.Reads limit) (rightReads : right.Reads limit) :
    (add left operation additive right).Reads limit := by
  intro depth value rest within means short ends
  obtain ⟨first, second, leftMeans, rightMeans, operates⟩ := means
  have apart : ¬ Category.product.GoesOnWith operation := by
    rcases additive with rfl | rfl <;> simp [Category.GoesOnWith, Operator.IsMultiplicative]
  simp only [tokens, List.append_assoc, List.cons_append, List.length_append,
    List.length_cons] at short ⊢
  obtain ⟨turns, enough, read⟩ :=
    leftReads depth first (.operator operation :: (right.tokens ++ rest))
    (le_trans (le_max_left _ _) within) leftMeans (by simpa using short)
    (Category.ends_operator apart _)
  obtain ⟨turns, rfl⟩ : ∃ more, turns = more + 1 := ⟨turns - 1, by omega⟩
  refine ⟨turns, by omega, ?_⟩
  have operand := rightReads.product (le_trans (le_max_right _ _) within) rightMeans
    (by simp only [List.length_append]; omega) ends
  have additive : (operation = .plus || operation = .minus) = true := by
    simpa [Operator.IsAdditive] using additive
  rw [read, sumTail, if_pos additive, operand]
  simp only [Bind.bind, Except.bind, combine_eq_ok_iff.2 operates]

theorem reads_signed {only : Derivation .signed} (reads : only.Reads limit) :
    (signed only).Reads limit := by
  intro depth value rest within means short ends
  refine ⟨limit, Nat.le_add_right _ _, ?_⟩
  have read := reads depth value rest within means short ends
  unfold Arithmetic.product
  rw [tokens, read]
  rfl

theorem reads_multiply {left : Derivation .product} {operation : Operator}
    {multiplicative : operation.IsMultiplicative} {right : Derivation .signed}
    (leftReads : left.Reads limit) (rightReads : right.Reads limit) :
    (multiply left operation multiplicative right).Reads limit := by
  intro depth value rest within means short ends
  obtain ⟨first, second, leftMeans, rightMeans, operates⟩ := means
  have apart : ¬ Category.signed.GoesOnWith operation := by
    rcases multiplicative with rfl | rfl | rfl <;> simp [Category.GoesOnWith]
  have other : operation ≠ .plus := by
    rcases multiplicative with rfl | rfl | rfl <;> decide
  simp only [tokens, List.append_assoc, List.cons_append, List.length_append,
    List.length_cons] at short ⊢
  obtain ⟨turns, enough, read⟩ :=
    leftReads depth first (.operator operation :: (right.tokens ++ rest))
    (le_trans (le_max_left _ _) within) leftMeans (by simpa using short)
    (Category.ends_operator apart _)
  obtain ⟨turns, rfl⟩ : ∃ more, turns = more + 1 := ⟨turns - 1, by omega⟩
  refine ⟨turns, by omega, ?_⟩
  have operand := rightReads depth second rest (le_trans (le_max_right _ _) within) rightMeans
    (by simp only [List.length_append]; omega) ends
  have multiplicative :
      (operation = .times || operation = .dividedBy || operation = .modulo) = true := by
    simpa [Operator.IsMultiplicative, or_assoc] using multiplicative
  rw [read, productTail, if_pos multiplicative, operand]
  simp only [Bind.bind, Except.bind, numeric_eq_combine other, combine_eq_ok_iff.2 operates]

theorem reads_negated {inner : Derivation .signed} (reads : inner.Reads limit) :
    (negated inner).Reads limit := by
  intro depth value rest within means short ends
  obtain ⟨argument, number, innerMeans, numeral, rfl⟩ := means
  obtain ⟨depth, rfl⟩ : ∃ less, depth = less + 1 := ⟨depth - 1, by rw [nesting] at within; omega⟩
  have operand := reads depth argument rest (Nat.le_of_succ_le_succ within) innerMeans
    (Nat.lt_of_succ_lt short) ends
  rw [tokens, List.cons_append, Arithmetic.signed, operand]
  simp only [Bind.bind, Except.bind, negate_eq_ok_iff.2 ⟨number, numeral, rfl⟩]

theorem reads_unsigned {only : Derivation .power} (reads : only.Reads limit) :
    (unsigned only).Reads limit := by
  intro depth value rest within means short ends
  obtain ⟨depth, rfl⟩ : ∃ less, depth = less + 1 := ⟨depth - 1, by rw [nesting] at within; omega⟩
  obtain ⟨first, others, same, starts⟩ := only.starts
  have read := reads depth value rest (Nat.le_of_succ_le_succ within) means short ends
  rw [tokens, signed_eq_power, read]
  intro later minus
  rw [same] at minus
  exact starts.2 _ (List.cons.inj minus).1

theorem reads_primary {only : Derivation .primary} (reads : only.Reads limit) :
    (primary only).Reads limit := by
  intro depth value rest within means short ends
  have read := reads depth value rest within means short (ends.mono fun _ goes => goes.elim)
  unfold Arithmetic.power
  rw [tokens, read]
  simp only [Bind.bind, Except.bind]
  split
  · exact ((ends _ rfl).2 _ rfl rfl).elim
  · rfl

theorem reads_raised {base : Derivation .primary} {exponent : Derivation .signed}
    (baseReads : base.Reads limit) (exponentReads : exponent.Reads limit) :
    (raised base exponent).Reads limit := by
  intro depth value rest within means short ends
  obtain ⟨first, second, baseMeans, exponentMeans, operates⟩ := means
  simp only [tokens, List.append_assoc, List.cons_append, List.length_append,
    List.length_cons] at short ⊢
  have read := baseReads depth first (.operator .power :: (exponent.tokens ++ rest))
    (le_trans (le_max_left _ _) within) baseMeans (by simpa using short)
    (Category.ends_operator id _)
  have operand := exponentReads depth second rest (le_trans (le_max_right _ _) within)
    exponentMeans (by simp only [List.length_append]; omega) ends
  unfold Arithmetic.power
  rw [read]
  simp only [Bind.bind, Except.bind, operand]
  rw [numeric_eq_combine (by decide), combine_eq_ok_iff.2 operates]

/-- A name is no call where no parenthesis follows. -/
theorem reads_constant (name : String) : (constant name).Reads limit := by
  intro depth value rest within means short ends
  have known := constant_eq_ok_iff.2 means
  rw [tokens, List.singleton_append]
  cases rest with
  | nil => simp only [Arithmetic.primary, Bind.bind, Except.bind, known]
  | cons token rest =>
    have apart := (ends token rfl).1
    cases token with
    | opening => exact (apart rfl).elim
    | _ => simp only [Arithmetic.primary, Bind.bind, Except.bind, known]

theorem reads_emptyCall (name : String) : (emptyCall name).Reads limit := by
  intro depth value rest within means short ends
  have applies : Arithmetic.call name [] = .ok value := call_eq_ok_iff.2 means
  simp only [tokens, List.cons_append, List.nil_append, Arithmetic.primary, Arithmetic.arguments,
    Bind.bind, Except.bind, applies]

theorem reads_call {name : String} {values : Derivation .arguments} (reads : values.Reads limit) :
    (call name values).Reads limit := by
  intro depth value rest within means short ends
  obtain ⟨arguments, meant, applies⟩ := means
  obtain ⟨first, others, same, starts⟩ := values.starts
  simp only [tokens, List.append_assoc, List.cons_append, List.nil_append, List.length_append,
    List.length_cons] at short ⊢
  have given : Arithmetic.arguments (Arithmetic.signed limit depth) limit
      (values.tokens ++ .closing :: rest) = .ok (arguments, rest) := by
    unfold Arithmetic.arguments
    split
    · rename_i closed
      rw [same] at closed
      exact (starts (List.cons.inj closed).1).elim
    · refine reads depth arguments _ within meant ?_ limit rest rfl ?_
      · simp only [List.length_append, List.length_cons]
        omega
      · omega
  simp only [Arithmetic.primary, Bind.bind, Except.bind, given, call_eq_ok_iff.2 applies]

theorem ends_closing (category : Category) : category.Ends (.closing :: rest) := by
  intro token first
  obtain rfl := Option.some.inj first
  exact ⟨nofun, nofun⟩

theorem ends_comma (category : Category) : category.Ends (.comma :: rest) := by
  intro token first
  obtain rfl := Option.some.inj first
  exact ⟨nofun, nofun⟩

theorem reads_enclosed {inner : Derivation .sum} (reads : inner.Reads limit) :
    (enclosed inner).Reads limit := by
  intro depth value rest within means short ends
  simp only [tokens, List.append_assoc, List.cons_append, List.nil_append, List.length_append,
    List.length_cons] at short ⊢
  have read : Arithmetic.sum (Arithmetic.signed limit depth) limit
      (inner.tokens ++ .closing :: rest) = .ok (value, .closing :: rest) := by
    refine reads.sum within means ?_ (ends_closing _)
    simp only [List.length_append, List.length_cons]
    omega
  simp only [Arithmetic.primary, Bind.bind, Except.bind, read, expectClose]

theorem reads_last {only : Derivation .sum} (reads : only.Reads limit) :
    (last only).Reads limit := by
  intro depth values rest within means short turns later
  obtain ⟨value, meant, rfl⟩ := means
  rintro rfl enough
  obtain ⟨turns, rfl⟩ : ∃ more, turns = more + 1 := ⟨turns - 1, by omega⟩
  have read := reads.sum within meant short (ends_closing _)
  simp only [tokens, argumentsTail, Bind.bind, Except.bind, read]

theorem reads_more {first : Derivation .sum} {others : Derivation .arguments}
    (firstReads : first.Reads limit) (othersRead : others.Reads limit) :
    (more first others).Reads limit := by
  intro depth values rest within means short turns later
  obtain ⟨value, more, firstMeans, othersMean, rfl⟩ := means
  rintro rfl enough
  simp only [tokens, List.append_assoc, List.cons_append, List.length_append,
    List.length_cons] at short enough ⊢
  obtain ⟨turns, rfl⟩ : ∃ more, turns = more + 1 := ⟨turns - 1, by omega⟩
  have read : Arithmetic.sum (Arithmetic.signed limit depth) limit
      (first.tokens ++ .comma :: (others.tokens ++ .closing :: later)) =
        .ok (value, .comma :: (others.tokens ++ .closing :: later)) := by
    refine firstReads.sum (le_trans (le_max_left _ _) within) firstMeans ?_ (ends_comma _)
    simp only [List.length_append, List.length_cons]
    omega
  have separated : argumentsTail (Arithmetic.signed limit depth) limit turns
      (others.tokens ++ .closing :: later) = .ok (more, later) := by
    refine othersRead depth more _ (le_trans (le_max_right _ _) within) othersMean ?_ turns later rfl
      (by omega)
    simp only [List.length_append, List.length_cons]
    omega
  simp only [argumentsTail, Bind.bind, Except.bind, read, separated]

theorem reads {category : Category} (tree : Derivation category) : tree.Reads limit := by
  induction tree with
  | product _ ih => exact reads_product ih
  | add _ _ _ _ left right => exact reads_add left right
  | signed _ ih => exact reads_signed ih
  | multiply _ _ _ _ left right => exact reads_multiply left right
  | negated _ ih => exact reads_negated ih
  | unsigned _ ih => exact reads_unsigned ih
  | primary _ ih => exact reads_primary ih
  | raised _ _ base exponent => exact reads_raised base exponent
  | number content =>
    intro depth value rest within means short ends
    obtain rfl : value = .number content := means
    rfl
  | text content =>
    intro depth value rest within means short ends
    obtain rfl : value = .text content := means
    rfl
  | operand content =>
    intro depth value rest within means short ends
    obtain rfl : value = content := means
    rfl
  | constant name => exact reads_constant name
  | emptyCall name => exact reads_emptyCall name
  | call _ _ ih => exact reads_call ih
  | enclosed _ ih => exact reads_enclosed ih
  | last _ ih => exact reads_last ih
  | more _ _ first others => exact reads_more first others

end Completeness

end Derivation

/-! ## Evaluation -/

/-- A list of parts and its tokens: no operand is missing, every source text is cut on its own, and an
operand is one token whatever text it holds. -/
inductive Spells : List Part → List Token → Prop
  | nil : Spells [] []
  | source {content : String} {parts : List Part} {first others : List Token}
      (lexes : Lexes content.toList first) (rest : Spells parts others) :
      Spells (.source content :: parts) (first ++ others)
  | operand {value : Datum} {parts : List Part} {others : List Token} (rest : Spells parts others) :
      Spells (.operand (some value) :: parts) (.operand value :: others)

theorem tokensOfParts_eq_ok_iff {parts : List Part} {tokens : List Token} :
    tokensOfParts parts = .ok tokens ↔ Spells parts tokens := by
  constructor
  · intro read
    induction parts generalizing tokens with
    | nil =>
      obtain rfl := Except.ok.inj read
      exact .nil
    | cons part parts ih =>
      obtain ⟨first, cut, more⟩ := bind_eq_ok.1 read
      obtain ⟨others, rest, done⟩ := bind_eq_ok.1 more
      obtain rfl := Except.ok.inj done
      cases part with
      | source content => exact .source (tokenize_eq_ok_iff.1 cut) (ih rest)
      | operand value =>
        cases value with
        | none => cases cut
        | some value =>
          obtain rfl := Except.ok.inj cut
          exact .operand (ih rest)
  · intro spells
    induction spells with
    | nil => rfl
    | source lexes _ ih =>
      simp only [tokensOfParts, Part.tokens, tokenize_eq_ok_iff.2 lexes, ih, Bind.bind, Except.bind]
    | operand _ ih =>
      simp only [tokensOfParts, Part.tokens, ih, Bind.bind, Except.bind]
      rfl

/-- All tokens are read, and the value is finite if it is a number. -/
theorem evaluateTokens_eq_ok {tokens : List Token} {value : Datum} :
    evaluateTokens tokens = .ok value ↔
      sum (signed (tokens.length + 1) maxDepth) (tokens.length + 1) tokens = .ok (value, []) ∧
        ∀ number, value = .number number → number.isFinite = true := by
  unfold evaluateTokens
  rw [bind_eq_ok]
  constructor
  · rintro ⟨⟨found, rest⟩, read, done⟩
    cases rest with
    | cons => simp at done
    | nil =>
      cases found with
      | number number =>
        dsimp only at done
        split at done
        · rename_i finite
          obtain rfl := Except.ok.inj done
          exact ⟨read, fun other same => Datum.number.inj same ▸ finite⟩
        · simp at done
      | text content =>
        obtain rfl := Except.ok.inj done
        exact ⟨read, nofun⟩
      | list items =>
        obtain rfl := Except.ok.inj done
        exact ⟨read, nofun⟩
  · rintro ⟨read, finite⟩
    refine ⟨(value, []), read, ?_⟩
    cases value with
    | number number => exact if_pos (finite number rfl)
    | text content => rfl
    | list items => rfl

theorem evaluateTokens_eq_ok_iff {tokens : List Token} {value : Datum} :
    evaluateTokens tokens = .ok value ↔ ∃ tree : Derivation .sum, tree.tokens = tokens ∧
      tree.nesting ≤ 128 ∧ tree.Means value ∧
      ∀ number, value = .number number → number.isFinite = true := by
  rw [evaluateTokens_eq_ok]
  constructor
  · rintro ⟨read, finite⟩
    obtain ⟨tree, same, nested, means⟩ := sum_sound (signed_sound _ _) _ _ _ read
    rw [List.append_nil] at same
    exact ⟨tree, same, nested, means, finite⟩
  · rintro ⟨tree, rfl, nested, means, finite⟩
    have read : sum (signed (tree.tokens.length + 1) maxDepth) (tree.tokens.length + 1)
        (tree.tokens ++ []) = .ok (value, []) :=
      tree.reads.sum nested means (by simp) (Category.ends_nil _)
    rw [List.append_nil] at read
    exact ⟨read, finite⟩

/-- Evaluation succeeds exactly where the tokens of the parts have a derivation with a meaning that is
finite if it is a number, and in which at most 128 signed operands nest. -/
theorem evaluate_eq_ok_iff {parts : List Part} {value : Datum} :
    evaluate parts = .ok value ↔ ∃ tokens, Spells parts tokens ∧
      ∃ tree : Derivation .sum, tree.tokens = tokens ∧ tree.nesting ≤ 128 ∧ tree.Means value ∧
        ∀ number, value = .number number → number.isFinite = true := by
  unfold evaluate
  simp only [bind_eq_ok, tokensOfParts_eq_ok_iff, evaluateTokens_eq_ok_iff]

end ConceptLaws.Arithmetic
