import ConceptLaws.Arithmetic.Evaluation
import ConceptLaws.Proofs.Text
import Mathlib.Tactic.IntervalCases

/-! Words of expressions.
A text is cut into words with blanks between them where there are any: numerals, quoted texts, names
and marks. Numerals and names reach as far as they can. The cutting is told here without a scanner,
and the scanner finds it wherever there is one. -/

namespace ConceptLaws.Arithmetic

/-! ## Words -/

/-- The tail of a numeral: nothing, or a marker, a sign if there is one, and digits. -/
inductive IsExponent : List Char → Prop
  | none : IsExponent []
  | written {marker : Char} {sign digits : List Char} (marks : marker = 'e' ∨ marker = 'E')
      (signs : sign = [] ∨ sign = ['+'] ∨ sign = ['-']) (filled : digits ≠ [])
      (all : ∀ letter ∈ digits, Decimal.isDigit letter = true) :
      IsExponent (marker :: (sign ++ digits))

/-- Digits and dots, and an exponent. -/
def IsNumeral (letters : List Char) : Prop :=
  ∃ mantissa exponent, letters = mantissa ++ exponent ∧ mantissa ≠ [] ∧
    (∀ letter ∈ mantissa, isNumeralStart letter = true) ∧ IsExponent exponent

/-- What is written between quotes for a content: a backslash stands before quotes and backslashes,
and may stand before any other letter. -/
inductive Quotes (quote : Char) : List Char → List Char → Prop
  | nil : Quotes quote [] []
  | plain {letter : Char} {content written : List Char} (inside : letter ≠ quote)
      (unmarked : letter ≠ '\\') (rest : Quotes quote content written) :
      Quotes quote (letter :: content) (letter :: written)
  | escaped {letter : Char} {content written : List Char} (rest : Quotes quote content written) :
      Quotes quote (letter :: content) ('\\' :: letter :: written)

/-- A word in front of the rest of a text, and the token that it is. -/
inductive Word : List Char → List Char → Token → Prop
  /-- No longer numeral stands here. -/
  | number {word rest : List Char} {value : Float} (numeral : IsNumeral word)
      (longest : ∀ longer, IsNumeral longer → longer <+: word ++ rest → longer.length ≤ word.length)
      (reads : Decimal.float? word = some value) : Word word rest (.number value)
  | text {quote : Char} {content written rest : List Char} (quotes : quote = '\'' ∨ quote = '"')
      (spelled : Quotes quote content written) :
      Word (quote :: (written ++ [quote])) rest (.text (String.ofList content))
  /-- A name starts with a letter or an underscore and ends where no character of a name follows. -/
  | name {first : Char} {others rest : List Char} (starts : isNameStart first = true)
      (all : ∀ letter ∈ others, Text.isWordChar letter = true)
      (ends : ∀ letter ∈ rest.head?, Text.isWordChar letter = false) :
      Word (first :: others) rest (.name (String.ofList (first :: others)))
  | mark {letter : Char} {rest : List Char} {token : Token}
      (known : punctuation? letter = some token) : Word [letter] rest token

/-- A text and the tokens of its words. -/
inductive Lexes : List Char → List Token → Prop
  | nil : Lexes [] []
  | blank {letter : Char} {rest : List Char} {tokens : List Token}
      (blank : Text.isBlank letter = true) (others : Lexes rest tokens) :
      Lexes (letter :: rest) tokens
  | word {word rest : List Char} {token : Token} {tokens : List Token}
      (first : Word word rest token) (others : Lexes rest tokens) :
      Lexes (word ++ rest) (token :: tokens)

/-! ## Kinds of characters -/

theorem mem_of_isNumeralStart {letter : Char} (starts : isNumeralStart letter = true) :
    letter ∈ ['0', '1', '2', '3', '4', '5', '6', '7', '8', '9', '.'] := by
  simp only [isNumeralStart, Decimal.isDigit, Bool.or_eq_true, Bool.and_eq_true, decide_eq_true_eq,
    beq_iff_eq] at starts
  rcases starts with ⟨low, high⟩ | rfl
  · have above : 48 ≤ letter.toNat := low
    have below : letter.toNat ≤ 57 := high
    rw [← Char.ofNat_toNat letter]
    generalize letter.toNat = code at above below
    interval_cases code <;> decide
  · decide

/-- What is known of the letters that start a numeral. -/
theorem isNumeralStart_apart {letter : Char} (starts : isNumeralStart letter = true) :
    isNameStart letter = false ∧ (punctuation? letter).isNone ∧ Text.isBlank letter = false ∧
      letter ≠ '\'' ∧ letter ≠ '"' := by
  have all : ['0', '1', '2', '3', '4', '5', '6', '7', '8', '9', '.'].all (fun letter =>
      !isNameStart letter && (punctuation? letter).isNone && !Text.isBlank letter &&
        letter != '\'' && letter != '"') = true := by decide +kernel
  have known := List.all_eq_true.1 all letter (mem_of_isNumeralStart starts)
  simpa [and_assoc] using known

theorem isWordChar_of_isNameStart {letter : Char} (starts : isNameStart letter = true) :
    Text.isWordChar letter = true := by
  unfold isNameStart at starts
  unfold Text.isWordChar
  rcases Bool.or_eq_true_iff.1 starts with plain | underscore
  · simp [plain]
  · simp [underscore]

/-! ## Numerals -/

theorem signPart_append (letters : List Char) :
    signPart letters ++ letters.drop (signPart letters).length = letters := by
  unfold signPart
  split <;> rfl

theorem signPart_cases (letters : List Char) :
    signPart letters = [] ∨ signPart letters = ['+'] ∨ signPart letters = ['-'] := by
  unfold signPart
  split <;> simp

theorem signPart_eq {sign digits : List Char} (signs : sign = [] ∨ sign = ['+'] ∨ sign = ['-'])
    (filled : digits ≠ []) (all : ∀ letter ∈ digits, Decimal.isDigit letter = true)
    (rest : List Char) : signPart (sign ++ (digits ++ rest)) = sign := by
  rcases signs with rfl | rfl | rfl
  · obtain ⟨first, digits, rfl⟩ := List.exists_cons_of_ne_nil filled
    have digit := all first List.mem_cons_self
    rw [List.nil_append, List.cons_append]
    unfold signPart
    split
    · rename_i same
      rw [(List.cons.inj same).1] at digit
      exact absurd digit (by decide)
    · rename_i same
      rw [(List.cons.inj same).1] at digit
      exact absurd digit (by decide)
    · rfl
  · rfl
  · rfl

theorem exponentPart_append (letters : List Char) :
    (exponentPart letters).1 ++ (exponentPart letters).2 = letters := by
  unfold exponentPart
  split
  · split
    · dsimp only
      split
      · rfl
      · simp only [List.cons_append, List.append_assoc, List.takeWhile_append_dropWhile,
          signPart_append]
    · rfl
  · rfl

theorem isExponent_exponentPart (letters : List Char) : IsExponent (exponentPart letters).1 := by
  unfold exponentPart
  split
  · rename_i marker rest
    split
    · rename_i marks
      dsimp only
      split
      · exact .none
      · rename_i filled
        refine .written (by simpa using marks) (signPart_cases rest) (by simpa using filled) ?_
        exact fun letter member => List.all_eq_true.1 List.all_takeWhile letter member
    · exact .none
  · exact .none

/-- No longer exponent starts a text than the one that is read. -/
theorem length_le_exponentPart {exponent : List Char} (written : IsExponent exponent)
    (rest : List Char) : exponent.length ≤ (exponentPart (exponent ++ rest)).1.length := by
  cases written with
  | none => exact Nat.zero_le _
  | @written marker sign digits marks signs filled all =>
    have sign_read := signPart_eq signs filled all rest
    have digits_read : (digits ++ rest).takeWhile Decimal.isDigit =
        digits ++ rest.takeWhile Decimal.isDigit := List.takeWhile_append_of_pos all
    have marks : (marker = 'e' || marker = 'E') = true := by simpa using marks
    unfold exponentPart
    simp only [List.cons_append, List.append_assoc, sign_read, List.drop_left, digits_read, marks,
      if_true]
    rw [if_neg (by simp [filled])]
    simp

theorem numeralPart_append (letters : List Char) :
    (numeralPart letters).1 ++ (numeralPart letters).2 = letters := by
  have parts := exponentPart_append (letters.dropWhile isNumeralStart)
  unfold numeralPart
  dsimp only
  rw [List.append_assoc, parts, List.takeWhile_append_dropWhile]

theorem isNumeral_numeralPart {letters : List Char}
    (starts : ∃ first ∈ letters.head?, isNumeralStart first = true) :
    IsNumeral (numeralPart letters).1 := by
  obtain ⟨first, headed, starts⟩ := starts
  refine ⟨letters.takeWhile isNumeralStart, _, rfl, ?_, ?_, isExponent_exponentPart _⟩
  · cases letters with
    | nil => cases headed
    | cons letter letters =>
      obtain rfl := Option.some.inj headed
      simp [starts]
  · exact fun letter member => List.all_eq_true.1 List.all_takeWhile letter member

/-- No longer numeral starts a text than the one that is read. -/
theorem length_le_numeralPart {word : List Char} (numeral : IsNumeral word) (rest : List Char) :
    word.length ≤ (numeralPart (word ++ rest)).1.length := by
  obtain ⟨mantissa, exponent, rfl, -, all, written⟩ := numeral
  unfold numeralPart
  dsimp only
  cases exponentOf : exponent with
  | nil =>
    rw [List.append_nil, List.takeWhile_append_of_pos all]
    simp only [List.length_append]
    omega
  | cons marker digits =>
    have ends : ∀ letter ∈ (exponent ++ rest).head?, isNumeralStart letter = false := by
      subst exponentOf
      cases written with
      | written marks =>
        intro letter first
        obtain rfl := Option.some.inj first
        rcases marks with rfl | rfl <;> decide
    obtain ⟨taken, left⟩ := Text.takeWhile_append_of_stop all ends
    have longest := length_le_exponentPart written rest
    rw [← exponentOf, List.append_assoc, taken, left]
    simpa using longest

/-- What is read is the longest numeral that starts the text. -/
theorem numeralPart_eq_iff {letters word rest : List Char}
    (starts : ∃ first ∈ letters.head?, isNumeralStart first = true) :
    numeralPart letters = (word, rest) ↔ letters = word ++ rest ∧ IsNumeral word ∧
      ∀ longer, IsNumeral longer → longer <+: word ++ rest → longer.length ≤ word.length := by
  have parts := numeralPart_append letters
  have numeral := isNumeral_numeralPart starts
  constructor
  · intro read
    rw [read] at parts numeral
    refine ⟨parts.symm, numeral, fun longer isNumeral => ?_⟩
    rintro ⟨after, same⟩
    have longest := length_le_numeralPart isNumeral after
    rwa [same, parts, read] at longest
  · rintro ⟨rfl, isNumeral, longest⟩
    have upper := length_le_numeralPart isNumeral rest
    have lower := longest _ numeral ⟨_, parts⟩
    obtain ⟨words, rests⟩ := List.append_inj parts (Nat.le_antisymm lower upper)
    exact Prod.ext words rests

/-! ## Quoted texts -/

theorem quotedPart?_append {quote : Char} (unmarked : quote ≠ '\\') {content written : List Char}
    (spelled : Quotes quote content written) (rest : List Char) :
    quotedPart? quote (written ++ quote :: rest) = some (content, rest) := by
  induction spelled with
  | nil =>
    rw [List.nil_append, quotedPart?.eq_3 quote quote rest fun _ _ same _ => unmarked same]
    rw [if_pos rfl]
  | @plain letter content written inside plain _ ih =>
    rw [List.cons_append, quotedPart?.eq_3 _ _ _ fun _ _ same _ => plain same, if_neg inside, ih]
    rfl
  | escaped _ ih =>
    rw [List.cons_append, List.cons_append, quotedPart?, ih]
    rfl

theorem spelled_of_quotedPart? {quote : Char} {letters content rest : List Char}
    (read : quotedPart? quote letters = some (content, rest)) :
    ∃ written, Quotes quote content written ∧ letters = written ++ quote :: rest := by
  fun_induction quotedPart? quote letters generalizing content rest with
  | case1 => cases read
  | case2 letter letters ih =>
    obtain ⟨⟨inner, after⟩, found, same⟩ := Option.map_eq_some_iff.1 read
    obtain ⟨rfl, rfl⟩ := Prod.mk.inj same
    obtain ⟨written, spelled, rfl⟩ := ih found
    exact ⟨_, .escaped spelled, rfl⟩
  | case3 =>
    obtain ⟨rfl, rfl⟩ := Prod.mk.inj (Option.some.inj read)
    exact ⟨[], .nil, rfl⟩
  | case4 letter letters unmarked inside ih =>
    obtain ⟨⟨inner, after⟩, found, same⟩ := Option.map_eq_some_iff.1 read
    obtain ⟨rfl, rfl⟩ := Prod.mk.inj same
    obtain ⟨written, spelled, rfl⟩ := ih found
    refine ⟨_, .plain inside (fun marked => ?_) spelled, rfl⟩
    -- a backslash with a letter after it would have been taken by the case before
    cases written with
    | nil => exact unmarked _ _ marked rfl
    | cons second written => exact unmarked _ _ marked rfl

/-! ## One token -/

theorem punctuation?_cases {letter : Char} {token : Token}
    (known : punctuation? letter = some token) :
    letter ∈ ['(', ')', ',', '+', '-', '*', '/', '%', '^'] := by
  unfold punctuation? Operator.ofSymbol? at known
  split at known
  · decide
  · decide
  · decide
  · split at known
    all_goals first | decide | cases known

/-- What is known of the letters that are words of their own. -/
theorem punctuation?_apart {letter : Char} {token : Token}
    (known : punctuation? letter = some token) :
    isNumeralStart letter = false ∧ isNameStart letter = false ∧ Text.isBlank letter = false ∧
      letter ≠ '\'' ∧ letter ≠ '"' := by
  have all : ['(', ')', ',', '+', '-', '*', '/', '%', '^'].all (fun letter =>
      !isNumeralStart letter && !isNameStart letter && !Text.isBlank letter &&
        letter != '\'' && letter != '"') = true := by decide +kernel
  have apart := List.all_eq_true.1 all letter (punctuation?_cases known)
  simpa [and_assoc] using apart

/-- A word does not start with a blank. -/
theorem Word.head {word rest : List Char} {token : Token} (is : Word word rest token) :
    ∃ first others, word = first :: others ∧ Text.isBlank first = false := by
  cases is with
  | number numeral =>
    obtain ⟨mantissa, exponent, rfl, filled, all, -⟩ := numeral
    obtain ⟨first, others, rfl⟩ := List.exists_cons_of_ne_nil filled
    exact ⟨first, _, rfl, (isNumeralStart_apart (all first List.mem_cons_self)).2.2.1⟩
  | text quotes =>
    refine ⟨_, _, rfl, ?_⟩
    rcases quotes with rfl | rfl <;> decide
  | name starts =>
    exact ⟨_, _, rfl, Text.isBlank_of_isWordChar (isWordChar_of_isNameStart starts)⟩
  | mark known => exact ⟨_, _, rfl, (punctuation?_apart known).2.2.1⟩

/-- The token that is read is that of the word at the start of the text. -/
theorem nextToken_eq_ok_iff {first : Char} {letters rest : List Char} {token : Token} :
    nextToken first letters = .ok (token, rest) ↔
      ∃ word, first :: letters = word ++ rest ∧ Word word rest token := by
  constructor
  · intro read
    unfold nextToken at read
    split at read
    · rename_i starts
      obtain ⟨same, numeral, longest⟩ := (numeralPart_eq_iff ⟨first, rfl, starts⟩).1
        (Prod.eta (numeralPart (first :: letters))).symm
      dsimp only at read
      split at read
      · rename_i value reads
        obtain ⟨rfl, rfl⟩ := Prod.mk.inj (Except.ok.inj read)
        exact ⟨_, same, .number numeral longest reads⟩
      · cases read
    split at read
    · rename_i quotes
      split at read
      · rename_i content after found
        obtain ⟨rfl, rfl⟩ := Prod.mk.inj (Except.ok.inj read)
        obtain ⟨written, spelled, rfl⟩ := spelled_of_quotedPart? found
        exact ⟨_, by simp, .text (by simpa using quotes) spelled⟩
      · cases read
    split at read
    · rename_i starts
      obtain ⟨rfl, rfl⟩ := Prod.mk.inj (Except.ok.inj read)
      refine ⟨first :: letters.takeWhile Text.isWordChar, ?_, .name starts ?_ ?_⟩
      · rw [List.cons_append, List.takeWhile_append_dropWhile]
      · exact fun letter member => List.all_eq_true.1 List.all_takeWhile letter member
      · exact Text.head?_dropWhile _ _
    split at read
    · rename_i found known
      obtain ⟨rfl, rfl⟩ := Prod.mk.inj (Except.ok.inj read)
      exact ⟨[first], rfl, .mark known⟩
    · cases read
  · rintro ⟨word, same, is⟩
    unfold nextToken
    cases is with
    | number numeral longest reads =>
      obtain ⟨mantissa, exponent, rfl, filled, all, written⟩ := id numeral
      obtain ⟨letter, others, rfl⟩ := List.exists_cons_of_ne_nil filled
      obtain rfl : first = letter := (List.cons.inj same).1
      have starts := all first List.mem_cons_self
      have read := (numeralPart_eq_iff ⟨first, rfl, starts⟩).2 ⟨same, numeral, longest⟩
      rw [if_pos starts, read]
      simp only [reads]
    | @text quote content written rest quotes spelled =>
      obtain ⟨rfl, rfl⟩ := List.cons.inj same
      have unmarked : first ≠ '\\' := by
        rcases quotes with rfl | rfl <;> decide
      have found := quotedPart?_append unmarked spelled rest
      have plain : isNumeralStart first = false := by
        rcases quotes with rfl | rfl <;> decide
      rw [if_neg (by simp [plain]), if_pos (by simpa using quotes)]
      simp [found]
    | name starts all ends =>
      obtain ⟨rfl, written⟩ := List.cons.inj same
      obtain ⟨taken, left⟩ := Text.takeWhile_append_of_stop all ends
      have plain : ¬ isNumeralStart first = true := by
        intro numeral
        rw [(isNumeralStart_apart numeral).1] at starts
        cases starts
      have unquoted : ¬ (first = '\'' || first = '"') = true := by
        rw [Bool.or_eq_true, decide_eq_true_eq, decide_eq_true_eq]
        rintro (rfl | rfl)
        · exact absurd starts (by decide)
        · exact absurd starts (by decide)
      rw [if_neg plain, if_neg unquoted, if_pos starts, written, List.append_eq, taken, left]
    | mark known =>
      obtain ⟨rfl, rfl⟩ := List.cons.inj same
      obtain ⟨plain, unnamed, -, single, double⟩ := punctuation?_apart known
      rw [if_neg (by simp [plain]), if_neg (by simp [single, double]), if_neg (by simp [unnamed])]
      simp [known]

/-! ## All tokens -/

theorem lexes_nil {tokens : List Token} : Lexes [] tokens ↔ tokens = [] := by
  constructor
  · intro lexes
    generalize nothing : ([] : List Char) = letters at lexes
    cases lexes with
    | nil => rfl
    | blank => cases nothing
    | word first =>
      obtain ⟨letter, others, rfl, -⟩ := first.head
      cases nothing
  · rintro rfl
    exact .nil

theorem lexes_blank {first : Char} {letters : List Char} {tokens : List Token}
    (blank : Text.isBlank first = true) :
    Lexes (first :: letters) tokens ↔ Lexes letters tokens := by
  refine ⟨fun lexes => ?_, .blank blank⟩
  generalize same : first :: letters = text at lexes
  cases lexes with
  | nil => cases same
  | blank _ others =>
    obtain ⟨rfl, rfl⟩ := List.cons.inj same
    exact others
  | word word =>
    obtain ⟨start, others, rfl, solid⟩ := word.head
    obtain rfl := (List.cons.inj same).1
    rw [blank] at solid
    cases solid

theorem lexes_solid {first : Char} {letters : List Char} {tokens : List Token}
    (solid : Text.isBlank first = false) : Lexes (first :: letters) tokens ↔
      ∃ token rest others, nextToken first letters = .ok (token, rest) ∧ Lexes rest others ∧
        tokens = token :: others := by
  constructor
  · intro lexes
    generalize same : first :: letters = text at lexes
    cases lexes with
    | nil => cases same
    | blank blank =>
      obtain rfl := (List.cons.inj same).1
      rw [blank] at solid
      cases solid
    | word word others => exact ⟨_, _, _, nextToken_eq_ok_iff.2 ⟨_, same, word⟩, others, rfl⟩
  · rintro ⟨token, rest, others, read, lexes, rfl⟩
    obtain ⟨written, same, word⟩ := nextToken_eq_ok_iff.1 read
    rw [same]
    exact .word word lexes

/-- A text is cut into the tokens of its words, and is rejected if it is no sequence of words. -/
theorem tokenize_eq_ok_iff {letters : List Char} {tokens : List Token} :
    tokenize letters = .ok tokens ↔ Lexes letters tokens := by
  fun_induction tokenize letters generalizing tokens with
  | case1 => rw [lexes_nil, Except.ok.injEq, eq_comm]
  | case2 letter rest blank ih => rw [lexes_blank blank, ih]
  | case3 letter rest solid fault failed =>
    simp [lexes_solid (Bool.eq_false_iff.2 solid), failed]
  | case4 letter rest solid token after found _ fault failed ih =>
    rw [lexes_solid (Bool.eq_false_iff.2 solid), found]
    refine iff_of_false nofun ?_
    rintro ⟨_, _, others, same, lexes, -⟩
    obtain ⟨rfl, rfl⟩ := Prod.mk.inj (Except.ok.inj same)
    rw [← ih, failed] at lexes
    cases lexes
  | case5 letter rest solid token after found _ others lexed ih =>
    rw [lexes_solid (Bool.eq_false_iff.2 solid), found, Except.ok.injEq]
    constructor
    · rintro rfl
      exact ⟨token, after, others, rfl, ih.1 lexed, rfl⟩
    · rintro ⟨_, _, others', same, lexes, rfl⟩
      obtain ⟨rfl, rfl⟩ := Prod.mk.inj (Except.ok.inj same)
      rw [← ih, lexed] at lexes
      rw [Except.ok.inj lexes]

end ConceptLaws.Arithmetic
