import ConceptLaws.Proofs.Decimal.Packing
import Mathlib.Data.Prod.Lex
import Mathlib.Order.Compare

/-! The order of doubles.
Apart from NaN, which is comparable with nothing, doubles stand on a line: the infinities at its
ends, both zeros in the middle, and the others by exponent and mantissa. -/

namespace ConceptLaws.Decimal

open Float.Model

/-! ## The line -/

/-- Places on the line, by side, exponent and mantissa. -/
abbrev Place := ℤ ×ₗ ℤ ×ₗ ℤ

def placeAt (side exponent mantissa : ℤ) : Place := toLex (side, toLex (exponent, mantissa))

/-- The place of an unpacked double; that of NaN stands for nothing. -/
def placeOf : UnpackedFloat → Place
  | .infinity .negative => placeAt (-2) 0 0
  | .finite .negative mantissa exponent _ => placeAt (-1) (-exponent) (-mantissa)
  | .zero _ | .notANumber => placeAt 0 0 0
  | .finite .positive mantissa exponent _ => placeAt 1 exponent mantissa
  | .infinity .positive => placeAt 2 0 0

theorem cmp_toLex {α β : Type} [LinearOrder α] [LinearOrder β] (left right : α × β) :
    cmp (toLex left) (toLex right) = (cmp left.1 right.1).then (cmp left.2 right.2) := by
  rw [cmp_eq_compare, cmp_eq_compare, cmp_eq_compare]
  rfl

theorem cmp_placeAt (side exponent mantissa side' exponent' mantissa' : ℤ) :
    cmp (placeAt side exponent mantissa) (placeAt side' exponent' mantissa') =
      (cmp side side').then ((cmp exponent exponent').then (cmp mantissa mantissa')) := by
  unfold placeAt
  rw [cmp_toLex, cmp_toLex]

theorem cmp_neg (left right : ℤ) : cmp (-left) (-right) = (cmp left right).swap := by
  rw [cmp_swap]
  exact StrictAnti.cmp_map_eq (fun _ _ => neg_lt_neg) left right

theorem cmp_natCast (left right : ℕ) : cmp (left : ℤ) (right : ℤ) = cmp left right :=
  Int.natCast_strictMono.cmp_map_eq left right

theorem compare_eq_some {left right : UnpackedFloat} (definedLeft : left.isNaN = false)
    (definedRight : right.isNaN = false) :
    left.compare right = some (cmp (placeOf left) (placeOf right)) := by
  cases left with
  | notANumber => cases definedLeft
  | infinity sign =>
    cases right with
    | notANumber => cases definedRight
    | infinity other => cases sign <;> cases other <;> rfl
    | zero other => cases sign <;> rfl
    | finite other mantissa exponent filled => cases sign <;> cases other <;> rfl
  | zero sign =>
    cases right with
    | notANumber => cases definedRight
    | infinity other => cases other <;> rfl
    | zero other => rfl
    | finite other mantissa exponent filled => cases other <;> rfl
  | finite sign mantissa exponent filled =>
    cases right with
    | notANumber => cases definedRight
    | infinity other => cases sign <;> cases other <;> rfl
    | zero other => cases sign <;> rfl
    | finite other mantissa' exponent' filled =>
      -- On one side exponents come before mantissas, and below zero both run backwards.
      cases sign <;> cases other
      · show some _ = some _
        rw [placeOf, placeOf, cmp_placeAt, cmp_self_eq_eq, cmp_neg exponent, cmp_neg mantissa,
          cmp_natCast, cmp_eq_compare exponent, cmp_eq_compare mantissa, ← Ordering.swap_then]
        rfl
      · rfl
      · rfl
      · show some _ = some _
        rw [placeOf, placeOf, cmp_placeAt, cmp_self_eq_eq, cmp_natCast, cmp_eq_compare exponent,
          cmp_eq_compare mantissa]
        rfl

theorem isNaN_of_compare {left right : UnpackedFloat} {ordering : Ordering}
    (compared : left.compare right = some ordering) :
    left.isNaN = false ∧ right.isNaN = false := by
  cases left <;> cases right <;> first | exact ⟨rfl, rfl⟩ | cases compared

/-! ## Doubles -/

/-- The place of a double. -/
def place (value : Float) : Place := placeOf value.toModel.unpack

theorem compare_eq_some_iff {left right : Float} {ordering : Ordering} :
    left.toModel.unpack.compare right.toModel.unpack = some ordering ↔
      left.isNaN = false ∧ right.isNaN = false ∧ cmp (place left) (place right) = ordering := by
  constructor
  · intro compared
    obtain ⟨definedLeft, definedRight⟩ := isNaN_of_compare compared
    rw [compare_eq_some definedLeft definedRight, Option.some.injEq] at compared
    exact ⟨definedLeft, definedRight, compared⟩
  · rintro ⟨definedLeft, definedRight, rfl⟩
    exact compare_eq_some definedLeft definedRight

theorem beq_iff {left right : Float} :
    (left == right) = true ↔
      left.isNaN = false ∧ right.isNaN = false ∧ place left = place right := by
  show (left.toModel.unpack.compare right.toModel.unpack == some .eq) = true ↔ _
  rw [beq_iff_eq, compare_eq_some_iff, cmp_eq_eq_iff]

theorem beq_comm (left right : Float) : (left == right) = (right == left) := by
  rw [Bool.eq_iff_iff, beq_iff, beq_iff, and_left_comm, @eq_comm _ (place left)]

theorem lt_iff {left right : Float} :
    left < right ↔ left.isNaN = false ∧ right.isNaN = false ∧ place left < place right := by
  show Float.lt left right = true ↔ _
  rw [Float.lt, decide_eq_true_iff]
  show (left.toModel.unpack.compare right.toModel.unpack == some .lt) = true ↔ _
  rw [beq_iff_eq, compare_eq_some_iff, cmp_eq_lt_iff]

theorem le_iff {left right : Float} :
    left ≤ right ↔ left.isNaN = false ∧ right.isNaN = false ∧ place left ≤ place right := by
  have isLE : (cmp (place left) (place right)).isLE = true ↔ place left ≤ place right := by
    rw [Ordering.isLE_iff_ne_gt, cmp_eq_gt_iff, not_lt]
  show Float.le left right = true ↔ _
  rw [Float.le, decide_eq_true_iff]
  show (left.toModel.unpack.compare right.toModel.unpack).any (·.isLE) = true ↔ _
  simp only [Option.any_eq_true, compare_eq_some_iff, ← isLE]
  constructor
  · rintro ⟨ordering, ⟨definedLeft, definedRight, rfl⟩, most⟩
    exact ⟨definedLeft, definedRight, most⟩
  · rintro ⟨definedLeft, definedRight, most⟩
    exact ⟨_, ⟨definedLeft, definedRight, rfl⟩, most⟩

theorem le_iff_lt_or_beq {left right : Float} :
    left ≤ right ↔ left < right ∨ (left == right) = true := by
  rw [le_iff, lt_iff, beq_iff, le_iff_lt_or_eq]
  tauto

end ConceptLaws.Decimal
