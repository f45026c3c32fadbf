import ConceptLaws.Text
import Mathlib.Data.List.TakeWhile

/-! Blanks at the ends of a text.
A trimmed text has no blank at either end, and trimming leaves such a text alone. No character of a
name is a blank, so names stop trimming. -/

namespace ConceptLaws.Text

/-! ## Characters of names -/

theorem inRanges_eq_any (ranges : Array (Nat × Nat)) (code : Nat) : inRanges ranges code =
    ranges.toList.any fun range => Nat.ble range.1 code && Nat.ble code range.2 := by
  unfold inRanges
  rw [← Array.any_toList]
  congr 1
  funext range
  rw [Bool.eq_iff_iff]
  simp

/-- No blank beyond the first 128 code points lies in one of the tables. -/
theorem outside_of_mem_blankCodes : ∀ code ∈ blankCodes, 128 ≤ code →
    ((letterRanges.toList ++ numberRanges.toList).any fun range =>
      Nat.ble range.1 code && Nat.ble code range.2) = false := by
  decide +kernel

theorem isWordChar_blank_of_lt : ∀ code ∈ blankCodes, code < 128 →
    ((Char.ofNat code).isAlpha || (Char.ofNat code).isDigit) = false := by
  decide

theorem isBlank_of_isWordChar {letter : Char} (word : isWordChar letter = true) :
    isBlank letter = false := by
  refine Bool.eq_false_iff.2 fun blank => ?_
  have listed : letter.toNat ∈ blankCodes := List.contains_iff_mem.1 blank
  have plain : isLetter letter || isNumber letter := by
    unfold isWordChar at word
    rcases Bool.or_eq_true_iff.1 word with plain | underscore
    · exact plain
    · rw [beq_iff_eq.1 underscore] at blank
      cases blank
  unfold isLetter isNumber at plain
  by_cases low : letter.toNat < 128
  · rw [if_pos low, if_pos low] at plain
    have apart := isWordChar_blank_of_lt _ listed low
    rw [Char.ofNat_toNat, plain] at apart
    cases apart
  · rw [if_neg low, if_neg low, inRanges_eq_any, inRanges_eq_any, ← List.any_append] at plain
    rw [outside_of_mem_blankCodes _ listed (Nat.le_of_not_lt low)] at plain
    cases plain

/-! ## Runs of characters -/

/-- A run of characters is read up to the first one that does not belong to it. -/
theorem takeWhile_append_of_stop {belongs : Char → Bool} {run rest : List Char}
    (all : ∀ letter ∈ run, belongs letter = true)
    (stop : ∀ letter ∈ rest.head?, belongs letter = false) :
    (run ++ rest).takeWhile belongs = run ∧ (run ++ rest).dropWhile belongs = rest := by
  rw [List.takeWhile_append_of_pos all, List.dropWhile_append_of_pos all]
  cases rest with
  | nil => simp
  | cons first rest => simp [stop first rfl]

theorem head?_dropWhile (belongs : Char → Bool) (letters : List Char) :
    ∀ letter ∈ (letters.dropWhile belongs).head?, belongs letter = false := by
  induction letters with
  | nil => simp
  | cons first rest ih =>
    rw [List.dropWhile_cons]
    split
    · exact ih
    · rename_i stops
      simpa using stops

/-! ## Trimming -/

theorem trim_sublist (letters : List Char) : (trim letters).Sublist letters := by
  unfold trim trimEnd trimStart
  refine List.Sublist.trans ?_ (List.dropWhile_sublist isBlank)
  rw [← List.reverse_sublist, List.reverse_reverse]
  exact List.dropWhile_sublist isBlank

/-- Nothing is left of a text exactly if all of it is blank. -/
theorem trim_eq_nil_iff {letters : List Char} :
    trim letters = [] ↔ ∀ letter ∈ letters, isBlank letter = true := by
  unfold trim trimEnd trimStart
  rw [List.reverse_eq_nil_iff, List.dropWhile_eq_nil_iff]
  simp only [List.mem_reverse]
  constructor
  · intro blank
    have parts := List.takeWhile_append_dropWhile (p := isBlank) (l := letters)
    intro letter member
    rw [← parts] at member
    rcases List.mem_append.1 member with taken | left
    · exact List.all_eq_true.1 List.all_takeWhile letter taken
    · exact blank letter left
  · exact fun blank letter member => blank letter ((List.dropWhile_sublist _).subset member)

theorem trimStart_eq_self {letters : List Char}
    (first : ∀ letter ∈ letters.head?, isBlank letter = false) : trimStart letters = letters :=
  (takeWhile_append_of_stop (List.forall_mem_nil _) first).2

theorem trimEnd_eq_self {letters : List Char}
    (last : ∀ letter ∈ letters.getLast?, isBlank letter = false) : trimEnd letters = letters := by
  have kept : letters.reverse.dropWhile isBlank = letters.reverse :=
    trimStart_eq_self (by rwa [List.head?_reverse])
  unfold trimEnd
  rw [kept, List.reverse_reverse]

/-- A text without blanks at its ends is left alone. -/
theorem trim_eq_self {letters : List Char}
    (first : ∀ letter ∈ letters.head?, isBlank letter = false)
    (last : ∀ letter ∈ letters.getLast?, isBlank letter = false) : trim letters = letters := by
  unfold trim
  rw [trimStart_eq_self first, trimEnd_eq_self last]

theorem head?_trim (letters : List Char) :
    ∀ letter ∈ (trim letters).head?, isBlank letter = false := by
  intro letter member
  have started := head?_dropWhile isBlank letters
  have prefixed : trim letters <+: trimStart letters := by
    unfold trim trimEnd
    rw [← List.reverse_suffix, List.reverse_reverse]
    exact List.dropWhile_suffix isBlank
  obtain ⟨rest, same⟩ := prefixed
  refine started letter ?_
  unfold trimStart at same
  rw [← same, List.head?_append, Option.mem_def.1 member]
  rfl

theorem getLast?_trim (letters : List Char) :
    ∀ letter ∈ (trim letters).getLast?, isBlank letter = false := by
  unfold trim trimEnd
  rw [List.getLast?_reverse]
  exact head?_dropWhile isBlank _

/-- Blanks at the end of two texts are those of the second one, unless it has nothing else. -/
theorem trimEnd_append (first second : List Char) : trimEnd (first ++ second) =
    if trimEnd second = [] then trimEnd first else first ++ trimEnd second := by
  unfold trimEnd
  rw [List.reverse_append, List.dropWhile_append]
  simp only [List.reverse_eq_nil_iff, List.isEmpty_iff]
  split
  · rfl
  · rw [List.reverse_append, List.reverse_reverse]

theorem exists_trimEnd (letters : List Char) : ∃ after,
    letters = trimEnd letters ++ after ∧ ∀ letter ∈ after, isBlank letter = true := by
  have parts := congrArg List.reverse
    (List.takeWhile_append_dropWhile (p := isBlank) (l := letters.reverse))
  rw [List.reverse_append, List.reverse_reverse] at parts
  exact ⟨_, parts.symm, fun letter member =>
    List.all_eq_true.1 List.all_takeWhile letter (List.mem_reverse.1 member)⟩

/-- What is trimmed off is blank. -/
theorem exists_trim (letters : List Char) : ∃ before after,
    letters = before ++ (trim letters ++ after) ∧
      (∀ letter ∈ before, isBlank letter = true) ∧ ∀ letter ∈ after, isBlank letter = true := by
  have parts := List.takeWhile_append_dropWhile (p := isBlank) (l := letters)
  obtain ⟨after, last, blank⟩ := exists_trimEnd (trimStart letters)
  refine ⟨letters.takeWhile isBlank, after, ?_, List.all_eq_true.1 List.all_takeWhile, blank⟩
  unfold trim
  rw [← last]
  exact parts.symm

theorem trim_append_blank (letters : List Char) {after : List Char}
    (blank : ∀ letter ∈ after, isBlank letter = true) : trim (letters ++ after) = trim letters := by
  have nothing : trimEnd after = [] := List.reverse_eq_nil_iff.2
    (List.dropWhile_eq_nil_iff.2 fun letter member => blank letter (List.mem_reverse.1 member))
  unfold trim trimStart
  rw [List.dropWhile_append]
  split
  · rename_i empty
    rw [List.dropWhile_eq_nil_iff.2 blank, List.isEmpty_iff.1 empty]
  · rw [trimEnd_append, if_pos nothing]

theorem trim_trimEnd (letters : List Char) : trim (trimEnd letters) = trim letters := by
  obtain ⟨after, parts, blank⟩ := exists_trimEnd letters
  exact (trim_append_blank _ blank).symm.trans (congrArg trim parts.symm)

theorem trim_trim (letters : List Char) : trim (trim letters) = trim letters :=
  trim_eq_self (head?_trim letters) (getLast?_trim letters)

end ConceptLaws.Text
