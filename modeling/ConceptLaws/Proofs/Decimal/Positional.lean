import ConceptLaws.Decimal.Numeral
import ConceptLaws.Decimal.Shortest
import ConceptLaws.Proofs.Text
import Mathlib

/-! The letters and digits of numerals.
A text that reads as a number is not empty, and is made of digits, the point, signs, and the letters
of the exponent and of the special values. The digits of a number say the number again; zeros in
front of them, zeros behind them and the place of the point change the power of ten and nothing else.
-/

namespace ConceptLaws.Decimal

/-- The letters that stand in numerals. -/
def IsNumeric (letter : Char) : Prop :=
  isDigit letter = true ∨ letter ∈ ['+', '-', '.', 'e', 'E'] ∨
    letter.toLower ∈ ['i', 'n', 'f', 't', 'y', 'a']

instance (letter : Char) : Decidable (IsNumeric letter) := by
  unfold IsNumeric
  infer_instance

/-- Blanks do not stand in numerals. -/
theorem isBlank_of_isNumeric {letter : Char} (numeric : IsNumeric letter) :
    Text.isBlank letter = false := by
  have apart : ∀ code ∈ Text.blankCodes, ¬ IsNumeric (Char.ofNat code) := by decide +kernel
  refine Bool.eq_false_iff.2 fun blank => ?_
  refine apart letter.toNat (List.contains_iff_mem.1 blank) ?_
  rwa [Char.ofNat_toNat]

theorem splitSign_cases (letters : List Char) :
    letters = (splitSign letters).2 ∨
      ∃ sign ∈ ['+', '-'], letters = sign :: (splitSign letters).2 := by
  rcases letters with _ | ⟨first, rest⟩
  · exact .inl rfl
  · by_cases minus : first = '-'
    · subst minus
      exact .inr ⟨'-', by simp, rfl⟩
    · by_cases plus : first = '+'
      · subst plus
        exact .inr ⟨'+', by simp, rfl⟩
      · refine .inl ?_
        simp [splitSign, minus, plus]

theorem numeric_splitSign {letters : List Char}
    (numeric : ∀ letter ∈ (splitSign letters).2, IsNumeric letter) :
    ∀ letter ∈ letters, IsNumeric letter := by
  rcases splitSign_cases letters with same | ⟨sign, signs, same⟩
  · rwa [same]
  · rw [same]
    have known : sign ∈ ['+', '-', '.', 'e', 'E'] := List.mem_append_left ['.', 'e', 'E'] signs
    exact List.forall_mem_cons.2 ⟨.inr (.inl known), numeric⟩

theorem isDigit_of_mem_takeWhile {letters : List Char} :
    ∀ letter ∈ letters.takeWhile isDigit, isDigit letter = true :=
  List.all_eq_true.1 List.all_takeWhile

theorem numeric_of_exponent? {letters : List Char} {exponent : Int}
    (reads : exponent? letters = some exponent) : ∀ letter ∈ letters, IsNumeric letter := by
  cases letters with
  | nil => simp
  | cons marker rest =>
    simp only [exponent?] at reads
    split at reads
    next marks =>
      split at reads
      · cases reads
      next digits =>
        rw [Bool.or_eq_true, not_or, Bool.not_eq_true', Bool.not_eq_false,
          List.all_eq_true] at digits
        refine List.forall_mem_cons.2 ⟨.inr (.inl ?_), numeric_splitSign ?_⟩
        · rcases Bool.or_eq_true_iff.1 marks with e | e <;> simp [of_decide_eq_true e]
        · exact fun letter member => .inl (digits.2 letter member)
    · cases reads

/-- Digits, a point and digits if there is one, and the rest. -/
theorem splitMantissa_cases (letters : List Char) :
    ∃ whole fraction rest, splitMantissa letters = (whole, fraction, rest) ∧
      (∀ letter ∈ whole, isDigit letter = true) ∧ (∀ letter ∈ fraction, isDigit letter = true) ∧
      (letters = whole ++ '.' :: (fraction ++ rest) ∨ letters = whole ++ rest ∧ fraction = []) := by
  have parts := List.takeWhile_append_dropWhile (p := isDigit) (l := letters)
  unfold splitMantissa
  split
  next rest found =>
    refine ⟨_, _, _, rfl, isDigit_of_mem_takeWhile, isDigit_of_mem_takeWhile, .inl ?_⟩
    rw [List.takeWhile_append_dropWhile, ← found, parts]
  · exact ⟨_, _, _, rfl, isDigit_of_mem_takeWhile, List.forall_mem_nil _, .inr ⟨parts.symm, rfl⟩⟩

theorem numeric_of_finite? {letters : List Char} {value : Float}
    (reads : finite? letters = some value) :
    letters ≠ [] ∧ ∀ letter ∈ letters, IsNumeric letter := by
  obtain ⟨whole, fraction, rest, split, wholeDigits, fractionDigits, spelled⟩ :=
    splitMantissa_cases letters
  simp only [finite?, split] at reads
  split at reads
  · cases reads
  next filled =>
    obtain ⟨exponent, ends, -⟩ := Option.map_eq_some_iff.1 reads
    have atEnd := numeric_of_exponent? ends
    have digits {run : List Char} (all : ∀ letter ∈ run, isDigit letter = true) :
        ∀ letter ∈ run, IsNumeric letter := fun letter member => .inl (all letter member)
    rcases spelled with spelled | ⟨spelled, rfl⟩
    · refine ⟨by simp [spelled], ?_⟩
      rw [spelled]
      exact List.forall_mem_append.2 ⟨digits wholeDigits, List.forall_mem_cons.2
        ⟨.inr (.inl (by simp)), List.forall_mem_append.2 ⟨digits fractionDigits, atEnd⟩⟩⟩
    · rw [List.append_nil, List.isEmpty_iff] at filled
      refine ⟨by simp [spelled, filled], ?_⟩
      rw [spelled]
      exact List.forall_mem_append.2 ⟨digits wholeDigits, atEnd⟩

theorem numeric_of_special? {letters : List Char} {value : Float}
    (reads : special? letters = some value) :
    letters ≠ [] ∧ ∀ letter ∈ letters, IsNumeric letter := by
  have known {word : List Char} (spelled : letters.map Char.toLower = word)
      (filled : word ≠ []) (all : ∀ letter ∈ word, letter ∈ ['i', 'n', 'f', 't', 'y', 'a']) :
      letters ≠ [] ∧ ∀ letter ∈ letters, IsNumeric letter := by
    constructor
    · rintro rfl
      exact filled spelled.symm
    · intro letter member
      exact .inr (.inr (all _ (spelled ▸ List.mem_map_of_mem member)))
  simp only [special?] at reads
  split at reads
  next infinite =>
    rcases Bool.or_eq_true_iff.1 infinite with short | long
    · exact known (of_decide_eq_true short) (by simp) (by simp)
    · exact known (of_decide_eq_true long) (by simp) (by simp)
  · split at reads
    next undefined => exact known undefined (by simp) (by simp)
    · cases reads

/-- A text that reads as a number is made of the letters of numerals. -/
theorem numeric_of_float? {letters : List Char} {value : Float}
    (reads : float? letters = some value) :
    letters ≠ [] ∧ ∀ letter ∈ letters, IsNumeric letter := by
  obtain ⟨unsigned, body, -⟩ := Option.map_eq_some_iff.1 reads
  have numeric : (splitSign letters).2 ≠ [] ∧
      ∀ letter ∈ (splitSign letters).2, IsNumeric letter := by
    rcases Option.or_eq_some_iff.1 body with finite | ⟨-, special⟩
    · exact numeric_of_finite? finite
    · exact numeric_of_special? special
  refine ⟨?_, numeric_splitSign numeric.2⟩
  rintro rfl
  exact numeric.1 rfl

end ConceptLaws.Decimal

namespace ConceptLaws.Decimal

/-! ## Digits -/

theorem natOfDigits_concat (digits : List Char) (letter : Char) :
    natOfDigits (digits ++ [letter]) = natOfDigits digits * 10 + digitValue letter := by
  rw [natOfDigits, List.foldl_append]
  rfl

theorem digitValue_digitChar : ∀ digit < 10, digitValue (Nat.digitChar digit) = digit := by decide

theorem natOfDigits_digitList (number : Nat) : natOfDigits (digitList number) = number := by
  induction number using Nat.strong_induction_on with
  | _ number ih =>
    unfold digitList at ih ⊢
    rcases Nat.lt_or_ge number 10 with single | several
    · rw [Nat.toDigits_of_lt_base single]
      exact (Nat.zero_add _).trans (digitValue_digitChar number single)
    · rw [Nat.toDigits_of_base_le (by decide) several, natOfDigits_concat, ih _ (by omega),
        digitValue_digitChar _ (Nat.mod_lt _ (by decide))]
      omega

theorem isDigit_of_mem_digitList {number : Nat} :
    ∀ letter ∈ digitList number, isDigit letter = true := by
  intro letter member
  have digit := Nat.isDigit_of_mem_toDigits (by decide) (by decide) member
  simpa [Char.isDigit, isDigit, Char.le_def] using digit

/-- The digits of a number within range are an index, that number. -/
theorem index?_digitList {number : Nat} (small : number < wordCount) :
    index? (digitList number) = some number := by
  have filled : (digitList number).isEmpty = false :=
    List.isEmpty_eq_false_iff.2 Nat.toDigits_ne_nil
  have digits : (digitList number).all isDigit = true := List.all_eq_true.2 isDigit_of_mem_digitList
  have unsigned : ∀ rest, digitList number ≠ '+' :: rest := by
    intro rest same
    exact absurd (isDigit_of_mem_digitList '+' (same ▸ List.mem_cons_self)) (by decide)
  unfold index?
  split
  · rename_i rest same
    exact absurd same (unsigned rest)
  · simp [filled, digits, natOfDigits_digitList, small]

/-- The digits of a number do not start with a zero. -/
theorem dropWhile_digitList {number : Nat} (filled : 0 < number) :
    (digitList number).dropWhile (· == '0') = digitList number := by
  induction number using Nat.strong_induction_on with
  | _ number ih =>
    unfold digitList at ih ⊢
    rcases Nat.lt_or_ge number 10 with single | several
    · have nonzero : ∀ digit < 10, 0 < digit → Nat.digitChar digit ≠ '0' := by decide
      rw [Nat.toDigits_of_lt_base single]
      simp [nonzero number single filled]
    · have started := ih (number / 10) (by omega) (by omega)
      rw [Nat.toDigits_of_base_le (by decide) several, List.dropWhile_append, started]
      simp [Nat.toDigits_ne_nil]

theorem natOfDigits_zeros (digits : List Char) (count : Nat) :
    natOfDigits (digits ++ List.replicate count '0') = natOfDigits digits * 10 ^ count := by
  induction count with
  | zero => simp
  | succ count ih =>
    rw [List.replicate_succ', ← List.append_assoc, natOfDigits_concat, ih, pow_succ]
    simp [digitValue, mul_assoc]

/-! ## Numerals without an exponent -/

theorem finite?_whole {digits : List Char} (some : digits ≠ [])
    (all : ∀ letter ∈ digits, isDigit letter = true) :
    finite? digits = .some (nearestOfDigits digits 0) := by
  obtain ⟨taken, left⟩ := @Text.takeWhile_append_of_stop isDigit digits [] all (by simp)
  rw [List.append_nil] at taken left
  simp [finite?, splitMantissa, taken, left, some, exponent?]

theorem finite?_point {whole fraction : List Char} (some : whole ≠ [])
    (wholeDigits : ∀ letter ∈ whole, isDigit letter = true)
    (fractionDigits : ∀ letter ∈ fraction, isDigit letter = true) :
    finite? (whole ++ '.' :: fraction) =
      .some (nearestOfDigits (whole ++ fraction) (-fraction.length)) := by
  have point : ∀ letter ∈ ('.' :: fraction).head?, isDigit letter = false := by
    rintro letter ⟨⟩
    decide
  obtain ⟨taken, left⟩ := Text.takeWhile_append_of_stop wholeDigits point
  obtain ⟨takenToo, leftToo⟩ := @Text.takeWhile_append_of_stop isDigit fraction [] fractionDigits
    (by simp)
  rw [List.append_nil] at takenToo leftToo
  simp [finite?, splitMantissa, taken, left, takenToo, leftToo, some, exponent?]

/-- Zeros in front do not count, and all other digits are read. -/
theorem nearestOfDigits_eq (zeros : Nat) {digits : List Char}
    (starts : digits.dropWhile (· == '0') = digits) (short : digits.length ≤ decisiveDigits)
    (exponent : Int) : nearestOfDigits (List.replicate zeros '0' ++ digits) exponent =
      nearestFloat (natOfDigits digits) digits.length exponent := by
  have significant : (List.replicate zeros '0' ++ digits).dropWhile (· == '0') = digits := by
    rw [List.dropWhile_append_of_pos (by simp), starts]
  unfold nearestOfDigits
  dsimp only
  rw [significant, List.splitAt_eq, List.take_of_length_le short, List.drop_of_length_le short]

/-- A positional text is read as an integer times a power of ten, the one that it was written for.
-/
theorem finite?_positional {digits : Nat} {power : Int} (filled : 0 < digits)
    (short : (digitList digits).length + power.toNat ≤ decisiveDigits) :
    finite? (Scientific.mk digits power).positional =
      some (nearestFloat (digits * 10 ^ power.toNat) ((digitList digits).length + power.toNat)
        (min power 0)) := by
  have all := @isDigit_of_mem_digitList digits
  have starts := dropWhile_digitList filled
  have some : digitList digits ≠ [] := Nat.toDigits_ne_nil
  unfold Scientific.positional
  dsimp only
  split
  next negative =>
    obtain ⟨places, rfl⟩ : ∃ places : Nat, power = -places := ⟨power.natAbs, by omega⟩
    simp only [Int.toNat_neg_natCast, neg_neg, Int.toNat_natCast, pow_zero, mul_one, add_zero,
      placePoint] at short ⊢
    have padding : ∀ letter ∈ List.replicate (places + 1 - (digitList digits).length) '0' ++
        digitList digits, isDigit letter = true :=
      List.forall_mem_append.2 ⟨fun letter zero => by rw [List.eq_of_mem_replicate zero]; rfl, all⟩
    rw [finite?_point _ (fun letter member => padding letter (List.mem_of_mem_take member))
      (fun letter member => padding letter (List.mem_of_mem_drop member)), List.take_append_drop,
      nearestOfDigits_eq _ starts short, natOfDigits_digitList]
    · congr 2
      rw [List.length_drop, List.length_append, List.length_replicate]
      omega
    · rw [ne_eq, List.take_eq_nil_iff, List.length_append, List.length_replicate]
      rintro (none | empty)
      · omega
      · exact some (List.append_eq_nil_iff.1 empty).2
  next nonnegative =>
    obtain ⟨places, rfl⟩ : ∃ places : Nat, power = places := ⟨power.natAbs, by omega⟩
    rw [Int.toNat_natCast] at short ⊢
    have zeros : ∀ letter ∈ digitList digits ++ List.replicate places '0', isDigit letter = true :=
      List.forall_mem_append.2 ⟨all, fun letter zero => by rw [List.eq_of_mem_replicate zero]; rfl⟩
    have startsToo : (digitList digits ++ List.replicate places '0').dropWhile (· == '0') =
        digitList digits ++ List.replicate places '0' := by
      rw [List.dropWhile_append, starts, if_neg (by simpa using some)]
    have read := nearestOfDigits_eq 0 startsToo (by simpa using short) 0
    rw [List.replicate_zero, List.nil_append, natOfDigits_zeros, natOfDigits_digitList,
      List.length_append, List.length_replicate] at read
    rw [finite?_whole (by simp [some]) zeros, read]
    congr 2
    omega

end ConceptLaws.Decimal
