import ConceptLaws.Proofs.Decimal.Packing

/-! Mantissas times powers of ten.
Products and quotients of doubles are rounded once. A mantissa and a power of ten that doubles hold
exactly are multiplied or divided as doubles; others are multiplied or divided with all their
digits. Either way the result is the double that the exact number rounds to. -/

namespace ConceptLaws.Decimal

open Float.Model Float.Model.UnpackedFloat

/-! ## Products and quotients -/

section
variable {mantissa : Nat} {exponent : Int} {left right : Nat} {leftExponent rightExponent : Int}
  (leftFilled : 0 < left) (rightFilled : 0 < right)

theorem mul_eq (canonical : Canonical mantissa exponent)
    (rounds : RoundsTo (left * 2 ^ leftExponent * (right * 2 ^ rightExponent)) mantissa exponent)
    (enough : 2 ^ 52 ≤ left * right) :
    UnpackedFloat.mul Format.binary64 (.finite .positive left leftExponent leftFilled)
      (.finite .positive right rightExponent rightFilled) =
        .finite .positive mantissa exponent canonical.filled := by
  have filled : left * right ≠ 0 := (Nat.mul_pos leftFilled rightFilled).ne'
  refine roundWithAccuracy_eq rounds canonical ?_ ?_ _
  · have scaled : (left : ℚ) * 2 ^ leftExponent * (right * 2 ^ rightExponent) /
        2 ^ (leftExponent + rightExponent) = (left * right : Nat) := by
      rw [zpow_add₀ two_ne_zero]
      have := two_zpow_pos leftExponent
      have := two_zpow_pos rightExponent
      field_simp
      push_cast
      ring
    rw [scaled]
    exact tracks_exact _
  · have full := (Nat.le_log2 (k := 52) filled).2 enough
    unfold shiftedExponent
    omega

/-- The quotient is taken with enough bits. -/
theorem div_eq (canonical : Canonical mantissa exponent)
    (rounds : RoundsTo (left * 2 ^ leftExponent / (right * 2 ^ rightExponent)) mantissa exponent) :
    UnpackedFloat.div Format.binary64 (.finite .positive left leftExponent leftFilled)
      (.finite .positive right rightExponent rightFilled) =
        .finite .positive mantissa exponent canonical.filled := by
  simp only [UnpackedFloat.div, divCore, targetExponent_binary64, totalExponent]
  generalize same : min (leftExponent - rightExponent) (max ((left.log2 : Int) + 1 + leftExponent -
    (right.log2 + 1 + rightExponent) - 53) (-1074)) = scale
  obtain ⟨count, shifted⟩ :=
    Int.le.dest (same ▸ min_le_left _ _ : scale ≤ leftExponent - rightExponent)
  have amount : (leftExponent - rightExponent - scale).toNat = count := by omega
  rw [amount]
  refine roundWithAccuracy_eq rounds canonical ?_ ?_ _
  · have scaled : (left : ℚ) * 2 ^ leftExponent / (right * 2 ^ rightExponent) / 2 ^ scale =
        (left <<< count : Nat) / right := by
      have exponents : leftExponent = rightExponent + scale + count := by omega
      rw [exponents, zpow_add₀ two_ne_zero, zpow_add₀ two_ne_zero, zpow_natCast, Nat.shiftLeft_eq]
      have := two_zpow_pos rightExponent
      have := two_zpow_pos scale
      have : (right : ℚ) ≠ 0 := by exact_mod_cast rightFilled.ne'
      push_cast
      field_simp
    rw [scaled]
    exact tracks_quotient _ rightFilled
  · unfold shiftedExponent
    by_cases small : scale ≤ -1074
    · omega
    · have wide : 53 + right.log2 ≤ left.log2 + count := by omega
      have quotient : 2 ^ 52 ≤ left <<< count / right := by
        rw [Nat.le_div_iff_mul_le rightFilled, Nat.shiftLeft_eq]
        calc 2 ^ 52 * right ≤ 2 ^ 52 * 2 ^ (right.log2 + 1) :=
              Nat.mul_le_mul_left _ Nat.lt_log2_self.le
          _ = 2 ^ (53 + right.log2) := by rw [← pow_add]; congr 1; omega
          _ ≤ 2 ^ (left.log2 + count) := Nat.pow_le_pow_right two_pos wide
          _ = 2 ^ left.log2 * 2 ^ count := pow_add _ _ _
          _ ≤ left * 2 ^ count := Nat.mul_le_mul_right _ (Nat.log2_self_le leftFilled.ne')
      have nonzero : left <<< count / right ≠ 0 := by omega
      have full := (Nat.le_log2 (k := 52) nonzero).2 quotient
      omega

end

/-! ## Numbers that doubles hold -/

/-- A double that is the number, with all the bits of its mantissa in use. -/
def Holds (value : Float) (number : ℚ) : Prop :=
  ∃ mantissa exponent, ∃ filled : 0 < mantissa,
    value.toModel.unpack = .finite .positive mantissa exponent filled ∧ 2 ^ 52 ≤ mantissa ∧
      (mantissa : ℚ) * 2 ^ exponent = number

theorem roundsTo_exact (mantissa : Nat) (exponent : Int) :
    RoundsTo (mantissa * 2 ^ exponent) mantissa exponent := by
  have unit : (mantissa : ℚ) * 2 ^ exponent / 2 ^ exponent = mantissa :=
    mul_div_cancel_right₀ _ (two_zpow_pos exponent).ne'
  constructor
  · rw [unit]
    exact .inl (by norm_num)
  · rintro rfl -
    rw [unit]
    norm_num

/-- An integer of at most fifty-three bits, shifted until it has as many. -/
theorem shifted_log2 {number : Nat} (filled : 0 < number) (small : number < 2 ^ 53) :
    2 ^ 52 ≤ number <<< (52 - number.log2) ∧ number <<< (52 - number.log2) < 2 ^ 53 ∧
      ((number <<< (52 - number.log2) : Nat) : ℚ) * 2 ^ ((number.log2 : Int) - 52) = number := by
  have upper := (Nat.log2_lt filled.ne').2 small
  have power (size : Nat) : 2 ^ size * 2 ^ (52 - number.log2) = 2 ^ (size + (52 - number.log2)) :=
    (pow_add _ _ _).symm
  rw [Nat.shiftLeft_eq]
  refine ⟨?_, ?_, ?_⟩
  · calc 2 ^ 52 = 2 ^ number.log2 * 2 ^ (52 - number.log2) := by rw [power]; congr 1; omega
      _ ≤ number * 2 ^ (52 - number.log2) :=
        Nat.mul_le_mul_right _ (Nat.log2_self_le filled.ne')
  · calc number * 2 ^ (52 - number.log2) < 2 ^ (number.log2 + 1) * 2 ^ (52 - number.log2) :=
          Nat.mul_lt_mul_of_pos_right Nat.lt_log2_self (Nat.two_pow_pos _)
      _ = 2 ^ 53 := by rw [power]; congr 1; omega
  · have exponent : (number.log2 : Int) - 52 = -(52 - number.log2 : Nat) := by omega
    rw [exponent, zpow_neg, zpow_natCast]
    push_cast
    exact mul_inv_cancel_right₀ (pow_ne_zero _ two_ne_zero) _

theorem holds_of_reading {value : Float} {mantissa : Nat} {exponent : Int}
    (reading : Reading.ofFloat value = .finite false ⟨mantissa, exponent⟩)
    (full : 2 ^ 52 ≤ mantissa) : Holds value (mantissa * 2 ^ exponent) := by
  have filled : 0 < mantissa := by omega
  rw [ofFloat_eq] at reading
  cases unpacked : value.toModel.unpack with
  | infinity => simp [unpacked, Reading.ofUnpacked] at reading
  | notANumber => simp [unpacked, Reading.ofUnpacked] at reading
  | zero =>
    simp only [unpacked, Reading.ofUnpacked, Reading.finite.injEq, Magnitude.mk.injEq] at reading
    omega
  | finite sign found scale positive =>
    simp only [unpacked, Reading.ofUnpacked, Reading.finite.injEq, Magnitude.mk.injEq] at reading
    obtain ⟨sign, rfl, rfl⟩ := reading
    refine ⟨_, _, filled, ?_, full, rfl⟩
    rw [unpacked]
    cases ‹Sign› with
    | negative => cases sign
    | positive => rfl

theorem holds_integer {number : Nat} (filled : 0 < number) (small : number < 2 ^ 53) :
    Holds number.toUInt64.toFloat number := by
  obtain ⟨full, bounded, same⟩ := shifted_log2 filled small
  have upper := (Nat.log2_lt filled.ne').2 small
  have representable : Representable (number <<< (52 - number.log2)) (number.log2 - 52) :=
    ⟨⟨by omega, bounded, by omega, .inl full⟩, by omega⟩
  have word : number.toUInt64.toNat = number := by
    rw [Nat.toUInt64_eq, UInt64.toNat_ofNat']
    omega
  have rounded : UnpackedFloat.ofUInt64 Format.binary64 number.toUInt64 =
      .finite .positive (number <<< (52 - number.log2)) (number.log2 - 52)
        representable.filled := by
    have positive : compare (number : Int) 0 = .gt := Int.compare_eq_gt.2 (by omega)
    have target : Format.binary64.targetExponent (totalExponent number 0) = number.log2 - 52 := by
      rw [targetExponent_binary64, totalExponent]
      omega
    have room : (0 - ((number.log2 : Int) - 52)).toNat = 52 - number.log2 := by omega
    rw [UnpackedFloat.ofUInt64, UnpackedFloat.ofNat, UnpackedFloat.ofInt, word]
    simp only [UnpackedFloat.normalize, positive, UnpackedFloat.round, decreaseExponent,
      Int.toNat_natCast, target, room]
    have scale : (0 : Int) - (52 - number.log2 : Nat) = number.log2 - 52 := by omega
    rw [scale]
    refine roundWithAccuracy_eq (roundsTo_exact _ _) representable.toCanonical ?_ ?_ _
    · rw [mul_div_cancel_right₀ _ (two_zpow_pos _).ne']
      exact tracks_exact _
    · exact representable.shiftedExponent.ge
  refine ⟨_, _, representable.filled, ?_, full, same⟩
  rw [← unpack_pack representable, ← rounded]
  rfl

theorem holds_powerOfTen (power : Fin 23) :
    Holds Float.exactlyRepresentablePowersOfTen[power] (10 ^ power.val) := by
  have readings : ∀ power : Fin 23, Reading.ofFloat Float.exactlyRepresentablePowersOfTen[power] =
      .finite false ⟨5 ^ power.val <<< (52 - (5 ^ power.val).log2),
        power + (((5 ^ power.val).log2 : Int) - 52)⟩ := by
    decide +kernel
  have small : 5 ^ power.val < 2 ^ 53 :=
    (Nat.pow_le_pow_right (by decide) (by omega : power.val ≤ 22)).trans_lt (by decide)
  obtain ⟨full, -, same⟩ := shifted_log2 (Nat.pow_pos (by decide : 0 < 5)) small
  have holds := holds_of_reading (readings power) full
  have ten : (2 : ℚ) ^ power.val * (5 ^ power.val : Nat) = 10 ^ power.val := by
    push_cast
    rw [← mul_pow]
    norm_num
  rw [zpow_add₀ two_ne_zero, mul_left_comm, same, zpow_natCast, ten] at holds
  exact holds

/-! ## Powers of ten -/

theorem ten_zpow_of_neg {power : Int} (negative : power < 0) :
    (10 : ℚ) ^ power = (10 ^ power.natAbs)⁻¹ := by
  obtain ⟨count, rfl⟩ : ∃ count : Nat, power = -count := ⟨power.natAbs, by omega⟩
  rw [Int.natAbs_neg, Int.natAbs_natCast, zpow_neg, zpow_natCast]

theorem ten_zpow_of_nonneg {power : Int} (nonnegative : ¬ power < 0) :
    (10 : ℚ) ^ power = 10 ^ power.natAbs := by
  obtain ⟨count, rfl⟩ : ∃ count : Nat, power = count := ⟨power.natAbs, by omega⟩
  rw [Int.natAbs_natCast, zpow_natCast]

section
variable {digits mantissa : Nat} {power exponent : Int} (filled : 0 < digits)
  (canonical : Canonical mantissa exponent)
  (rounds : RoundsTo (digits * 10 ^ power) mantissa exponent)
include filled canonical rounds

/-- Multiplying and dividing with all digits. -/
theorem ofScientific_unpacked (low : -2048 ≤ power) (high : power ≤ 2048) :
    UnpackedFloat.ofScientific Format.binary64 digits power =
      .finite .positive mantissa exponent canonical.filled := by
  unfold UnpackedFloat.ofScientific
  rw [dif_neg filled.ne', if_neg (by norm_num; omega), if_neg (by norm_num; omega)]
  split
  next nonnegative =>
    have wide : 2 ^ 52 ≤ digits <<< Format.binary64.mantissaBits * 10 ^ power.toNat := by
      rw [Nat.shiftLeft_eq]
      calc 2 ^ 52 ≤ 1 * 2 ^ 53 * 1 := by norm_num
        _ ≤ digits * 2 ^ 53 * 10 ^ power.toNat :=
          Nat.mul_le_mul (Nat.mul_le_mul_right _ filled) (Nat.pow_pos (by decide))
    refine mul_eq _ _ canonical ?_ wide
    have shifted : ((digits <<< Format.binary64.mantissaBits : Nat) : ℚ) *
        2 ^ (-(Format.binary64.mantissaBits : Int)) = digits := by
      rw [Nat.shiftLeft_eq, zpow_neg, zpow_natCast]
      push_cast
      exact mul_inv_cancel_right₀ (pow_ne_zero _ two_ne_zero) _
    have tens : ((10 ^ power.toNat : Nat) : ℚ) * 2 ^ (0 : Int) = 10 ^ power := by
      rw [ten_zpow_of_nonneg (by omega), zpow_zero, mul_one, Nat.cast_pow]
      congr 1
      omega
    rwa [shifted, tens]
  next negative =>
    refine div_eq _ _ canonical ?_
    have tens : ((10 ^ (-power).toNat : Nat) : ℚ) * 2 ^ (0 : Int) = (10 ^ power)⁻¹ := by
      rw [ten_zpow_of_neg (by omega), inv_inv, zpow_zero, mul_one, Nat.cast_pow]
      congr 1
      omega
    rwa [tens, zpow_zero, mul_one, div_inv_eq_mul]

/-- A mantissa times a power of ten is rounded to the double that it lies next to. -/
theorem ofScientific_eq (low : -2048 ≤ power) (high : power ≤ 2048) :
    Float.ofScientific digits (power < 0) power.natAbs =
      .ofModel (.pack (.finite .positive mantissa exponent canonical.filled)) := by
  unfold Float.ofScientific
  split
  next exact =>
    obtain ⟨number, numberExponent, numberFilled, unpacked, full, same⟩ :=
      holds_integer filled exact.1
    obtain ⟨scale, scaleExponent, scaleFilled, unpackedScale, fullScale, sameScale⟩ :=
      holds_powerOfTen ⟨power.natAbs, by omega⟩
    rw [← same] at rounds
    split
    next negative =>
      rw [ten_zpow_of_neg (of_decide_eq_true negative), ← sameScale, ← div_eq_mul_inv] at rounds
      have quotient := div_eq numberFilled scaleFilled canonical rounds
      rw [← unpacked, ← unpackedScale] at quotient
      exact congrArg (fun unpacked => Float.ofModel (.pack unpacked)) quotient
    next nonnegative =>
      rw [ten_zpow_of_nonneg (by simpa using nonnegative), ← sameScale] at rounds
      have wide : 2 ^ 52 ≤ number * scale := full.trans (Nat.le_mul_of_pos_right _ scaleFilled)
      have product := mul_eq numberFilled scaleFilled canonical rounds wide
      rw [← unpacked, ← unpackedScale] at product
      exact congrArg (fun unpacked => Float.ofModel (.pack unpacked)) product
  next long =>
    have signed : (if decide (power < 0) = true then Int.negOfNat power.natAbs
        else Int.ofNat power.natAbs) = power := by
      simp only [decide_eq_true_eq, Int.negOfNat_eq, Int.ofNat_eq_natCast]
      omega
    simp only [signed]
    rw [Float.Model.ofScientific, ofScientific_unpacked filled canonical rounds low high]

end

end ConceptLaws.Decimal
