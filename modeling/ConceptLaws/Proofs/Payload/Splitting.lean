import ConceptLaws.Payload
import ConceptLaws.Proofs.Text

/-! Commas and brackets.
A text is split at the commas that stand outside all brackets. What a text does to the depth of the
brackets, and whether it has a comma outside of them, is told by its brackets and commas alone; so a
text may lose other letters, and some of its commas, and still stand in one piece. -/

namespace ConceptLaws.Payload

/-- The number of open brackets after a letter. -/
def nest (depth : Nat) (letter : Char) : Nat :=
  if letter = '\x7b' || letter = '(' || letter = '[' then depth + 1
  else if letter = '\x7d' || letter = ')' || letter = ']' then depth - 1
  else depth

/-- The number of open brackets after a text. -/
def depthAfter (depth : Nat) (letters : List Char) : Nat := letters.foldl nest depth

/-- No comma stands outside all brackets. -/
def Solid : Nat → List Char → Prop
  | _, [] => True
  | depth, letter :: rest => ¬ (letter = ',' ∧ depth = 0) ∧ Solid (nest depth letter) rest

/-- Neither a comma nor a bracket. -/
def IsPlain (letter : Char) : Prop :=
  letter ∉ [',', '\x7b', '(', '[', '\x7d', ')', ']']

instance (letter : Char) : Decidable (IsPlain letter) := by
  unfold IsPlain
  infer_instance

theorem nest_of_isPlain {letter : Char} (plain : IsPlain letter) (depth : Nat) :
    nest depth letter = depth := by
  simp only [IsPlain, List.mem_cons, List.not_mem_nil, or_false, not_or] at plain
  simp [nest, plain]

@[simp] theorem depthAfter_nil (depth : Nat) : depthAfter depth [] = depth := rfl

@[simp] theorem depthAfter_cons (depth : Nat) (letter : Char) (rest : List Char) :
    depthAfter depth (letter :: rest) = depthAfter (nest depth letter) rest := rfl

theorem depthAfter_append (depth : Nat) (first second : List Char) :
    depthAfter depth (first ++ second) = depthAfter (depthAfter depth first) second :=
  List.foldl_append

theorem solid_append {depth : Nat} {first second : List Char} :
    Solid depth (first ++ second) ↔ Solid depth first ∧ Solid (depthAfter depth first) second := by
  induction first generalizing depth with
  | nil => simp [Solid]
  | cons letter rest ih => simp [Solid, ih, and_assoc]

/-- Commas that stand between texts. -/
theorem intercalate_cons (part : List Char) {parts : List (List Char)} (more : parts ≠ []) :
    [','].intercalate (part :: parts) = part ++ ',' :: [','].intercalate parts := by
  obtain ⟨second, rest, rfl⟩ := List.exists_cons_of_ne_nil more
  rw [List.intercalate_cons_cons]
  simp

/-! ## Splitting -/

theorem splitTopLevel_comma (rest : List Char) :
    splitTopLevel 0 (',' :: rest) = [] :: splitTopLevel 0 rest := by
  simp [splitTopLevel]

theorem splitTopLevel_cons {depth : Nat} {letter : Char} (inside : ¬ (letter = ',' ∧ depth = 0))
    {rest part : List Char} {parts : List (List Char)}
    (split : splitTopLevel (nest depth letter) rest = part :: parts) :
    splitTopLevel depth (letter :: rest) = (letter :: part) :: parts := by
  rw [splitTopLevel, if_neg (by simpa using inside)]
  dsimp only
  rw [← nest, split]

/-- A text in one piece is not split. -/
theorem splitTopLevel_of_solid {depth : Nat} {letters : List Char} (solid : Solid depth letters) :
    splitTopLevel depth letters = [letters] := by
  induction letters generalizing depth with
  | nil => rfl
  | cons letter rest ih => exact splitTopLevel_cons solid.1 (ih solid.2)

/-- A comma outside all brackets ends a piece. -/
theorem splitTopLevel_append {depth : Nat} {letters : List Char} (solid : Solid depth letters)
    (closed : depthAfter depth letters = 0) (rest : List Char) :
    splitTopLevel depth (letters ++ ',' :: rest) = letters :: splitTopLevel 0 rest := by
  induction letters generalizing depth with
  | nil =>
    rw [depthAfter_nil] at closed
    rw [closed, List.nil_append, splitTopLevel_comma]
  | cons letter letters ih => exact splitTopLevel_cons solid.1 (ih solid.2 closed)

/-- The texts stand each in one piece, and only the last one may leave brackets open. -/
structure Separable (parts : List (List Char)) : Prop where
  solid : ∀ part ∈ parts, Solid 0 part
  closed : parts.Pairwise fun part _ => depthAfter 0 part = 0

theorem Separable.tail {part : List Char} {parts : List (List Char)}
    (separable : Separable (part :: parts)) : Separable parts :=
  ⟨fun other member => separable.solid other (List.mem_cons_of_mem _ member),
    (List.pairwise_cons.1 separable.closed).2⟩

/-- Separable texts with commas between them are found again. -/
theorem splitTopLevel_intercalate {parts : List (List Char)} (separable : Separable parts)
    (some : parts ≠ []) : splitTopLevel 0 ([','].intercalate parts) = parts := by
  induction parts with
  | nil => exact absurd rfl some
  | cons part rest ih =>
    have here := separable.solid part List.mem_cons_self
    cases rest with
    | nil => rw [List.intercalate_singleton, splitTopLevel_of_solid here]
    | cons second others =>
      have closed := (List.pairwise_cons.1 separable.closed).1 second List.mem_cons_self
      rw [intercalate_cons _ (List.cons_ne_nil _ _), splitTopLevel_append here closed,
        ih separable.tail (List.cons_ne_nil _ _)]

/-- The pieces that a text is split into, and the commas between them, make up the text. -/
theorem splitTopLevel_pieces (depth : Nat) (letters : List Char) :
    ∃ first rest, splitTopLevel depth letters = first :: rest ∧
      [','].intercalate (first :: rest) = letters ∧ Solid depth first ∧
      (rest ≠ [] → depthAfter depth first = 0) ∧ Separable rest := by
  induction letters generalizing depth with
  | nil => exact ⟨[], [], rfl, rfl, trivial, by simp, by simp, .nil⟩
  | cons letter letters ih =>
    by_cases cut : letter = ',' ∧ depth = 0
    · obtain ⟨rfl, rfl⟩ := cut
      obtain ⟨first, rest, split, joined, solid, closed, separable⟩ := ih 0
      refine ⟨[], first :: rest, by rw [splitTopLevel_comma, split], ?_, trivial, fun _ => rfl,
        ?_, ?_⟩
      · rw [intercalate_cons _ (List.cons_ne_nil _ _), joined]
        rfl
      · exact List.forall_mem_cons.2 ⟨solid, separable.solid⟩
      · exact List.pairwise_cons.2
          ⟨fun other member => closed (List.ne_nil_of_mem member), separable.closed⟩
    · obtain ⟨first, rest, split, joined, solid, closed, separable⟩ := ih (nest depth letter)
      refine ⟨letter :: first, rest, splitTopLevel_cons cut split, ?_, ⟨cut, solid⟩, closed,
        separable⟩
      cases rest with
      | nil => simpa using joined
      | cons second others =>
        rw [intercalate_cons _ (List.cons_ne_nil _ _)] at joined ⊢
        rw [List.cons_append, joined]

theorem separable_splitTopLevel (letters : List Char) : Separable (splitTopLevel 0 letters) := by
  obtain ⟨first, rest, split, -, solid, closed, separable⟩ := splitTopLevel_pieces 0 letters
  rw [split]
  exact ⟨List.forall_mem_cons.2 ⟨solid, separable.solid⟩, List.pairwise_cons.2
    ⟨fun other member => closed (List.ne_nil_of_mem member), separable.closed⟩⟩

theorem intercalate_splitTopLevel (letters : List Char) :
    [','].intercalate (splitTopLevel 0 letters) = letters := by
  obtain ⟨first, rest, split, joined, -⟩ := splitTopLevel_pieces 0 letters
  rw [split, joined]

/-! ## Texts that lose letters -/

/-- The second text has the brackets of the first one, and no comma where that has none. -/
def Thins (letters fewer : List Char) : Prop :=
  ∀ depth, depthAfter depth fewer = depthAfter depth letters ∧
    (Solid depth letters → Solid depth fewer)

theorem thins_refl (letters : List Char) : Thins letters letters := fun _ => ⟨rfl, id⟩

theorem Thins.trans {first second third : List Char} (earlier : Thins first second)
    (later : Thins second third) : Thins first third := fun depth =>
  ⟨(later depth).1.trans (earlier depth).1, fun solid => (later depth).2 ((earlier depth).2 solid)⟩

theorem Thins.append {first second fewer less : List Char} (left : Thins first fewer)
    (right : Thins second less) : Thins (first ++ second) (fewer ++ less) := by
  intro depth
  rw [depthAfter_append, depthAfter_append, solid_append, solid_append, (left depth).1]
  exact ⟨(right _).1, fun ⟨here, there⟩ => ⟨(left depth).2 here, (right _).2 there⟩⟩

/-- A comma may go. -/
theorem thins_comma : Thins [','] [] := fun _ => ⟨rfl, fun _ => trivial⟩

theorem plain_nest {letters : List Char} (plain : ∀ letter ∈ letters, IsPlain letter)
    (depth : Nat) : depthAfter depth letters = depth ∧ Solid depth letters := by
  induction letters with
  | nil => exact ⟨rfl, trivial⟩
  | cons letter rest ih =>
    obtain ⟨here, later⟩ := List.forall_mem_cons.1 plain
    rw [depthAfter_cons, Solid, nest_of_isPlain here]
    refine ⟨(ih later).1, fun ⟨comma, _⟩ => here ?_, (ih later).2⟩
    rw [comma]
    exact List.mem_cons_self

/-- Plain texts stand for one another. -/
theorem thins_of_plain {letters fewer : List Char} (plain : ∀ letter ∈ letters, IsPlain letter)
    (plainToo : ∀ letter ∈ fewer, IsPlain letter) : Thins letters fewer := fun depth =>
  ⟨(plain_nest plainToo depth).1.trans (plain_nest plain depth).1.symm,
    fun _ => (plain_nest plainToo depth).2⟩

theorem isPlain_of_isBlank {letter : Char} (blank : Text.isBlank letter = true) :
    IsPlain letter := by
  have plain : ∀ code ∈ Text.blankCodes, IsPlain (Char.ofNat code) := by decide +kernel
  rw [← Char.ofNat_toNat letter]
  exact plain letter.toNat (List.contains_iff_mem.1 blank)

/-- Blanks stand around a trimmed text. -/
theorem exists_blanks_trim (letters : List Char) :
    ∃ before after, letters = before ++ Text.trim letters ++ after ∧
      (∀ letter ∈ before, Text.isBlank letter = true) ∧
      ∀ letter ∈ after, Text.isBlank letter = true := by
  have taken {letters : List Char} : ∀ letter ∈ letters.takeWhile Text.isBlank,
      Text.isBlank letter = true := List.all_eq_true.1 List.all_takeWhile
  refine ⟨letters.takeWhile Text.isBlank,
    ((Text.trimStart letters).reverse.takeWhile Text.isBlank).reverse, ?_, taken,
    fun letter member => taken letter (List.mem_reverse.1 member)⟩
  unfold Text.trim Text.trimEnd
  rw [List.append_assoc, ← List.reverse_append, List.takeWhile_append_dropWhile,
    List.reverse_reverse]
  exact List.takeWhile_append_dropWhile.symm

theorem thins_trim (letters : List Char) : Thins letters (Text.trim letters) := by
  obtain ⟨before, after, split, blankBefore, blankAfter⟩ := exists_blanks_trim letters
  have gone {blanks : List Char} (all : ∀ letter ∈ blanks, Text.isBlank letter = true) :
      Thins blanks [] :=
    thins_of_plain (fun letter member => isPlain_of_isBlank (all letter member)) (by simp)
  have thins :=
    ((gone blankBefore).append (thins_refl (Text.trim letters))).append (gone blankAfter)
  rw [← split] at thins
  simpa using thins

/-- Texts with commas between them become thinner if each of them does or is left out, as those are
that had no brackets. -/
theorem thins_intercalate {keep : List Char → Option (List Char)} {parts : List (List Char)}
    (kept : ∀ part ∈ parts, Thins part ((keep part).getD [])) :
    Thins ([','].intercalate parts) ([','].intercalate (parts.filterMap keep)) := by
  induction parts with
  | nil => exact thins_refl []
  | cons part rest ih =>
    obtain ⟨here, later⟩ := List.forall_mem_cons.1 kept
    cases rest with
    | nil =>
      rw [List.intercalate_singleton]
      cases found : keep part with
      | none => simpa [found] using here
      | some fewer => simpa [found] using here
    | cons second others =>
      have tail := ih later
      rw [intercalate_cons _ (List.cons_ne_nil _ _)]
      cases found : keep part with
      | none =>
        rw [found] at here
        rw [List.filterMap_cons_none found]
        exact here.append (thins_comma.append tail)
      | some fewer =>
        rw [found] at here
        rw [List.filterMap_cons_some found]
        by_cases none : (second :: others).filterMap keep = []
        · rw [none] at tail ⊢
          rw [List.intercalate_singleton, ← List.append_nil fewer]
          exact here.append (thins_comma.append tail)
        · rw [intercalate_cons _ none]
          exact here.append ((thins_refl [',']).append tail)

/-- Thinner texts are as separable. -/
theorem Separable.filterMap {keep : List Char → Option (List Char)} {parts : List (List Char)}
    (separable : Separable parts) (kept : ∀ part ∈ parts, Thins part ((keep part).getD [])) :
    Separable (parts.filterMap keep) := by
  have thins {part fewer : List Char} (member : part ∈ parts) (found : keep part = some fewer) :
      Thins part fewer := by simpa [found] using kept part member
  constructor
  · intro fewer listed
    obtain ⟨part, member, found⟩ := List.mem_filterMap.1 listed
    exact (thins member found 0).2 (separable.solid part member)
  · rw [List.pairwise_filterMap]
    refine List.Pairwise.imp_of_mem (fun member _ closed fewer found _ _ => ?_) separable.closed
    exact (thins member found 0).1.trans closed

end ConceptLaws.Payload
