import ConceptLaws.Decimal.Shortest
import ConceptLaws.Proofs.Decimal.Packing
import ConceptLaws.Proofs.Decimal.Positional
import ConceptLaws.Proofs.Decimal.Scaling

/-! Doubles read back from their texts.
Whatever digits the search for the shortest ones returns lie in the rounding interval of the double,
and it finds some, because its last grid is finer than half a unit of the double. Wherever the point
stands, these digits are rounded to the double, so its text is read as the same double; so are the
texts of zeros, infinities and of what is no number. -/

namespace ConceptLaws.Decimal

/-! ## Intervals over a common denominator -/

theorem zpow_toNat {base : ℚ} (nonzero : base ≠ 0) (exponent : Int) :
    base ^ exponent.toNat = base ^ exponent * base ^ (-exponent).toNat := by
  rcases Int.le_total 0 exponent with nonnegative | negative
  · obtain ⟨count, rfl⟩ := Int.eq_ofNat_of_zero_le nonnegative
    simp
  · obtain ⟨count, rfl⟩ : ∃ count : Nat, exponent = -count := ⟨exponent.natAbs, by omega⟩
    simp [nonzero]

section
variable {quarters digits : Nat} {exponent power : Int}

theorem scaled_quarters : ((quarters * Nat.pow 2 (exponent - 2).toNat * Nat.pow 10 (-power).toNat :
    Nat) : ℚ) = (quarters / 4 : ℚ) * 2 ^ exponent *
      (2 ^ (2 - exponent).toNat * 10 ^ (-power).toNat) := by
  have half : (2 : ℚ) ^ (exponent - 2).toNat =
      2 ^ exponent / 4 * 2 ^ (2 - exponent).toNat := by
    rw [zpow_toNat two_ne_zero, zpow_sub₀ two_ne_zero, neg_sub]
    norm_num
  push_cast [Nat.pow_eq]
  rw [half]
  ring

theorem scaled_digits : ((digits * (Nat.pow 2 (2 - exponent).toNat * Nat.pow 10 power.toNat) :
    Nat) : ℚ) = digits * 10 ^ power * (2 ^ (2 - exponent).toNat * 10 ^ (-power).toNat) := by
  push_cast [Nat.pow_eq]
  rw [zpow_toNat (by norm_num : (10 : ℚ) ≠ 0) power]
  ring

theorem quarters_le_digits : quarters * Nat.pow 2 (exponent - 2).toNat * Nat.pow 10 (-power).toNat ≤
    digits * (Nat.pow 2 (2 - exponent).toNat * Nat.pow 10 power.toNat) ↔
      (quarters / 4 : ℚ) ≤ digits * 10 ^ power / 2 ^ exponent := by
  have common : (0 : ℚ) < 2 ^ (2 - exponent).toNat * 10 ^ (-power).toNat := by positivity
  rw [← Nat.cast_le (α := ℚ), scaled_quarters, scaled_digits, mul_le_mul_iff_left₀ common,
    le_div_iff₀ (two_zpow_pos exponent)]

theorem digits_le_quarters : digits * (Nat.pow 2 (2 - exponent).toNat * Nat.pow 10 power.toNat) ≤
    quarters * Nat.pow 2 (exponent - 2).toNat * Nat.pow 10 (-power).toNat ↔
      (digits * 10 ^ power / 2 ^ exponent : ℚ) ≤ quarters / 4 := by
  have common : (0 : ℚ) < 2 ^ (2 - exponent).toNat * 10 ^ (-power).toNat := by positivity
  rw [← Nat.cast_le (α := ℚ), scaled_quarters, scaled_digits, mul_le_mul_iff_left₀ common,
    div_le_iff₀ (two_zpow_pos exponent)]

end

/-- How far below its mantissa the interval of a double reaches, in quarters of a unit. -/
def Magnitude.reach (magnitude : Magnitude) : Nat :=
  if magnitude.mantissa = fractionSize && magnitude.exponent > -1074 then 1 else 2

theorem contains_inUnits {mantissa digits : Nat} {exponent power : Int}
    (inside : ((Magnitude.mk mantissa exponent).interval.inUnits power).contains digits = true) :
    let quotient := (digits * 10 ^ power / 2 ^ exponent : ℚ)
    let lower := ((4 * mantissa - (Magnitude.mk mantissa exponent).reach : Nat) / 4 : ℚ)
    let upper := ((4 * mantissa + 2 : Nat) / 4 : ℚ)
    lower ≤ quotient ∧ quotient ≤ upper ∧
      (mantissa % 2 = 0 ∨ lower < quotient ∧ quotient < upper) := by
  unfold RoundingInterval.contains RoundingInterval.inUnits Magnitude.interval at inside
  dsimp only at inside ⊢
  split at inside
  next closed =>
    obtain ⟨low, high⟩ := of_decide_eq_true inside
    exact ⟨quarters_le_digits.1 low, digits_le_quarters.1 high, .inl (beq_iff_eq.1 closed)⟩
  next =>
    obtain ⟨low, high⟩ := of_decide_eq_true inside
    have lower := lt_of_not_ge fun most => low.not_ge (digits_le_quarters.2 most)
    have upper := lt_of_not_ge fun least => high.not_ge (quarters_le_digits.2 least)
    exact ⟨lower.le, upper.le, .inr ⟨lower, upper⟩⟩

/-- A point of the interval is rounded to the double. -/
theorem roundsTo_of_contains {mantissa digits : Nat} {exponent power : Int} (filled : 0 < mantissa)
    (inside : ((Magnitude.mk mantissa exponent).interval.inUnits power).contains digits = true) :
    RoundsTo (digits * 10 ^ power) mantissa exponent := by
  obtain ⟨low, high, ends⟩ := contains_inUnits inside
  have reaches : (Magnitude.mk mantissa exponent).reach ≤ 2 := by
    unfold Magnitude.reach
    split <;> omega
  have most : ((Magnitude.mk mantissa exponent).reach : ℚ) ≤ 2 := by exact_mod_cast reaches
  rw [Nat.cast_sub (by omega)] at low ends
  push_cast at low high ends
  constructor
  · rcases ends with even | ⟨above, below⟩
    · have within : |(digits * 10 ^ power / 2 ^ exponent : ℚ) - mantissa| ≤ 1 / 2 := by
        rw [abs_le]
        constructor <;> linarith
      exact within.lt_or_eq.imp id fun tie => ⟨tie, even⟩
    · refine .inl ?_
      rw [abs_lt]
      constructor <;> linarith
  · intro boundary larger
    have quarter : (Magnitude.mk mantissa exponent).reach = 1 := by
      have size : fractionSize = 2 ^ 52 := by decide
      rw [Magnitude.reach, if_pos (by simp [boundary, size, larger])]
    rw [quarter, boundary] at low
    push_cast at low
    linarith

/-! ## The search -/

theorem contains_of_nearest? {interval : RoundingInterval} {digits : Nat}
    (found : interval.nearest? = some digits) : interval.contains digits = true := by
  unfold RoundingInterval.nearest? at found
  dsimp only at found
  split at found
  next low high =>
    split at found <;> cases found <;> assumption
  next low high =>
    cases found
    exact low
  next low high =>
    cases found
    exact high
  · cases found

/-- A grid finer than the upper half of the interval has a point in it. -/
theorem exists_nearest? {interval : RoundingInterval} (below : interval.lower < interval.centre)
    (positive : 0 < interval.denominator)
    (fine : interval.centre + interval.denominator < interval.upper) :
    ∃ digits, interval.nearest? = some digits := by
  have division := Nat.div_add_mod interval.centre interval.denominator
  have remainder := Nat.mod_lt interval.centre positive
  have high : interval.contains (interval.centre / interval.denominator + 1) = true := by
    unfold RoundingInterval.contains
    rw [Nat.add_mul, one_mul, mul_comm]
    dsimp only
    split
    · exact decide_eq_true ⟨by omega, by omega⟩
    · exact decide_eq_true ⟨by omega, by omega⟩
  unfold RoundingInterval.nearest?
  dsimp only
  rw [high]
  cases interval.contains (interval.centre / interval.denominator) with
  | false => exact ⟨_, rfl⟩
  | true =>
    dsimp only
    split <;> exact ⟨_, rfl⟩

/-- The search returns a point that was found on one of its grids, if there is one on the last. -/
theorem shortestFrom_eq {interval : RoundingInterval} (steps : Nat) (exponent : Int)
    (last : ∃ digits, (interval.inUnits (exponent - steps)).nearest? = some digits) :
    ∃ digits power, shortestFrom interval (steps + 1) exponent = ⟨digits, power⟩ ∧
      (interval.inUnits power).nearest? = some digits ∧
      exponent - steps ≤ power ∧ power ≤ exponent := by
  induction steps generalizing exponent with
  | zero =>
    obtain ⟨digits, found⟩ := last
    rw [Nat.cast_zero, sub_zero] at found
    exact ⟨digits, exponent, by rw [shortestFrom, found], found, by omega, le_rfl⟩
  | succ steps ih =>
    rw [shortestFrom]
    split
    next digits found => exact ⟨digits, exponent, rfl, found, by omega, le_rfl⟩
    next missed =>
      obtain ⟨digits, power, result, found, low, high⟩ := ih (exponent - 1) (by
        rwa [sub_sub, add_comm, ← Nat.cast_succ])
      exact ⟨digits, power, result, found, by omega, by omega⟩

/-- The last grid that is tried for a number below `2 ^ size`. -/
def lastPower (size : Int) : Int := size * 30103 / 100000 - 22

/-- Through the whole range of doubles, the last grid is finer than half a unit. -/
theorem lastPower_fine {place : Nat} (bounded : place < 2098) :
    10 ^ (lastPower (place - 1073)).toNat * 2 ^ (1127 - (place : Int)).toNat <
      2 ^ ((place : Int) - 1127).toNat * 10 ^ (-lastPower (place - 1073)).toNat := by
  have checked : ((List.range 2098).all fun place =>
      10 ^ (lastPower (place - 1073)).toNat * 2 ^ (1127 - (place : Int)).toNat <
        2 ^ ((place : Int) - 1127).toNat * 10 ^ (-lastPower (place - 1073)).toNat) = true := by
    decide +kernel
  exact of_decide_eq_true (List.all_eq_true.1 checked place (List.mem_range.2 bounded))

theorem ten_zpow_lastPower_lt {size : Int} (low : -1073 ≤ size) (high : size ≤ 1024) :
    (10 : ℚ) ^ lastPower size < 2 ^ (size - 54) := by
  obtain ⟨place, rfl⟩ : ∃ place : Nat, size = place - 1073 := ⟨(size + 1073).toNat, by omega⟩
  have fine : (10 : ℚ) ^ (lastPower (place - 1073)).toNat * 2 ^ (1127 - (place : Int)).toNat <
      2 ^ ((place : Int) - 1127).toNat * 10 ^ (-lastPower (place - 1073)).toNat := by
    exact_mod_cast lastPower_fine (by omega)
  have common : (0 : ℚ) <
      10 ^ (-lastPower (place - 1073)).toNat * 2 ^ (1127 - (place : Int)).toNat := by
    positivity
  have turned : -((place : Int) - 1127) = 1127 - place := by ring
  rw [zpow_toNat (by norm_num : (10 : ℚ) ≠ 0), zpow_toNat two_ne_zero ((place : Int) - 1127),
    turned, mul_assoc, mul_assoc, mul_comm (2 ^ _) (10 ^ _ : ℚ)] at fine
  rw [show (place : Int) - 1073 - 54 = place - 1127 by ring]
  exact lt_of_mul_lt_mul_right fine common.le

/-- A grid finer than half a unit has a point in the interval. -/
theorem exists_nearest?_inUnits {mantissa : Nat} {exponent power : Int} (filled : 0 < mantissa)
    (fine : (10 ^ power / 2 ^ exponent : ℚ) < 1 / 2) :
    ∃ digits, ((Magnitude.mk mantissa exponent).interval.inUnits power).nearest? = some digits := by
  have scale : 0 < Nat.pow 2 (exponent - 2).toNat := Nat.pow_pos two_pos
  have up : 0 < Nat.pow 10 (-power).toNat := Nat.pow_pos (by decide)
  have unit : 1 * (Nat.pow 2 (2 - exponent).toNat * Nat.pow 10 power.toNat) <
      2 * Nat.pow 2 (exponent - 2).toNat * Nat.pow 10 (-power).toNat := by
    refine lt_of_not_ge fun most => fine.not_ge ?_
    have bound := quarters_le_digits.1 most
    rw [Nat.cast_one, one_mul] at bound
    norm_num at bound ⊢
    exact bound
  apply exists_nearest?
  · simp only [RoundingInterval.inUnits, Magnitude.interval]
    refine Nat.mul_lt_mul_of_pos_right (Nat.mul_lt_mul_of_pos_right ?_ scale) up
    split <;> omega
  · exact Nat.mul_pos (Nat.pow_pos two_pos) (Nat.pow_pos (by decide))
  · simp only [RoundingInterval.inUnits, Magnitude.interval, Nat.add_mul]
    omega

/-- The shortest digits of a double are rounded to it. -/
theorem shortest_eq {mantissa : Nat} {exponent : Int}
    (representable : Representable mantissa exponent) :
    ∃ digits power, (Magnitude.mk mantissa exponent).shortest = ⟨digits, power⟩ ∧ 0 < digits ∧
      RoundsTo (digits * 10 ^ power) mantissa exponent ∧ -346 ≤ power := by
  obtain ⟨⟨filled, small, least, -⟩, greatest⟩ := representable
  have upper := (Nat.log2_lt filled.ne').2 small
  generalize total : (mantissa.log2 : Int) + 1 + exponent = size
  have grids : (Magnitude.mk mantissa exponent).decimalExponent - (23 : Nat) = lastPower size := by
    unfold Magnitude.decimalExponent lastPower
    dsimp only
    omega
  have fine : (10 ^ lastPower size / 2 ^ exponent : ℚ) < 1 / 2 := by
    have less := @ten_zpow_lastPower_lt size (by omega) (by omega)
    have bound : (2 : ℚ) ^ (size - 54) ≤ 2 ^ (exponent - 1) :=
      zpow_le_zpow_right₀ one_le_two (by omega)
    rw [zpow_sub_one₀ two_ne_zero] at bound
    rw [div_lt_iff₀ (two_zpow_pos exponent)]
    linarith
  have last := exists_nearest?_inUnits filled fine
  rw [← grids] at last
  obtain ⟨digits, power, result, found, low, -⟩ := shortestFrom_eq 23 _ last
  have rounds := roundsTo_of_contains filled (contains_of_nearest? found)
  refine ⟨digits, power, ?_, ?_, rounds, ?_⟩
  · rw [Magnitude.shortest, if_neg filled.ne', result]
  · refine Nat.pos_of_ne_zero fun none => ?_
    have bound := rounds.nearest.bounds.2
    rw [none, Nat.cast_zero, zero_mul, zero_div, zero_add] at bound
    have one : (1 : ℚ) ≤ mantissa := by exact_mod_cast filled
    linarith
  · rw [grids] at low
    unfold lastPower at low
    omega

end ConceptLaws.Decimal

/-! ## Digits read back -/

namespace ConceptLaws.Decimal

open Float.Model Float.Model.UnpackedFloat

/-- Digits that are rounded to a double are read as that double. -/
theorem nearestFloat_eq {digits count mantissa : Nat} {power exponent : Int} (filled : 0 < digits)
    (low : -400 ≤ count + power) (high : count + power ≤ 400) (small : -2048 ≤ power)
    (negative : power ≤ 0) (canonical : Canonical mantissa exponent)
    (rounds : RoundsTo (digits * 10 ^ power) mantissa exponent) :
    nearestFloat digits count power =
      .ofModel (.pack (.finite .positive mantissa exponent canonical.filled)) := by
  rw [nearestFloat, if_neg filled.ne', if_neg (by omega), if_neg (by omega)]
  exact ofScientific_eq filled canonical rounds small (by omega)

/-- No double needs more than three hundred and nine digits before the point. -/
theorem length_digitList_add_le {digits mantissa : Nat} {power exponent : Int}
    (filled : 0 < digits)
    (representable : Representable mantissa exponent)
    (rounds : RoundsTo (digits * 10 ^ power) mantissa exponent) :
    (digitList digits).length + power ≤ 309 := by
  have some : 0 < (digitList digits).length := Nat.length_toDigits_pos
  have leading : 10 ^ ((digitList digits).length - 1) ≤ digits := by
    rcases Nat.eq_zero_or_pos ((digitList digits).length - 1) with single | several
    · rw [single, pow_zero]
      exact filled
    · refine Nat.le_of_not_lt fun less => ?_
      have short := (Nat.length_toDigits_le_iff (by decide) several).2 less
      unfold digitList at some short
      omega
  have unit := two_zpow_pos exponent
  have tens : (0 : ℚ) < 10 ^ power := zpow_pos (by norm_num) _
  have bound : (10 : ℚ) ^ (((digitList digits).length - 1 : Nat) + power) < 10 ^ (309 : Int) := by
    have small : (mantissa : ℚ) + 1 ≤ 2 ^ 53 := by exact_mod_cast representable.small
    have quotient := rounds.nearest.bounds.1
    calc (10 : ℚ) ^ (((digitList digits).length - 1 : Nat) + power)
        = (10 ^ ((digitList digits).length - 1) : Nat) * 10 ^ power := by
          rw [zpow_add₀ (by norm_num), zpow_natCast]
          push_cast
          rfl
      _ ≤ digits * 10 ^ power :=
        mul_le_mul_of_nonneg_right (by exact_mod_cast leading) tens.le
      _ < 2 ^ 53 * 2 ^ exponent := by
        rw [← div_lt_iff₀ unit]
        linarith
      _ = 2 ^ (53 + exponent) := by
        rw [zpow_add₀ two_ne_zero]
        norm_num
      _ ≤ 2 ^ (1024 : Int) :=
        zpow_le_zpow_right₀ one_le_two (by have := representable.greatest; omega)
      _ < 10 ^ (309 : Int) := by
        have wide : 2 ^ 1024 < 10 ^ 309 := by decide +kernel
        exact_mod_cast wide
  have exponents := (zpow_lt_zpow_iff_right₀ (by norm_num : (1 : ℚ) < 10)).1 bound
  omega

theorem finite?_shortest {mantissa : Nat} {exponent : Int}
    (representable : Representable mantissa exponent) :
    finite? (Magnitude.mk mantissa exponent).shortest.positional =
      some (.ofModel (.pack (.finite .positive mantissa exponent representable.filled))) := by
  obtain ⟨digits, power, shortest, filled, rounds, low⟩ := shortest_eq representable
  have size := length_digitList_add_le filled representable rounds
  have some : 0 < (digitList digits).length := Nat.length_toDigits_pos
  have same : ((digits * 10 ^ power.toNat : Nat) : ℚ) * 10 ^ min power 0 = digits * 10 ^ power := by
    have exponents : (power.toNat : Int) + min power 0 = power := by omega
    push_cast
    rw [mul_assoc, ← zpow_natCast, ← zpow_add₀ (by norm_num), exponents]
  rw [shortest, finite?_positional filled (by unfold decisiveDigits; omega)]
  rw [nearestFloat_eq (Nat.mul_pos filled (Nat.pow_pos (by decide))) (by push_cast; omega)
    (by push_cast; omega) (by omega) (by omega) representable.toCanonical (same ▸ rounds)]

/-! ## Texts -/

/-- A numeral without a sign is read as it stands. -/
theorem splitSign_of_finite? {letters : List Char} {value : Float}
    (read : finite? letters = some value) : splitSign letters = (false, letters) := by
  have signed {sign : Char} {rest : List Char} (mark : isDigit sign = false)
      (noPoint : sign ≠ '.') : finite? (sign :: rest) = none := by
    simp [finite?, splitMantissa, mark, noPoint]
  unfold splitSign
  split
  next rest =>
    rw [signed (by decide) (by decide)] at read
    cases read
  next rest =>
    rw [signed (by decide) (by decide)] at read
    cases read
  · rfl

theorem float?_of_finite? {letters : List Char} {value : Float}
    (read : finite? letters = some value) :
    float? letters = some value ∧ float? ('-' :: letters) = some (-value) := by
  have unsigned := splitSign_of_finite? read
  constructor
  · simp [float?, unsigned, read]
  · simp [float?, splitSign, read]

/-- Every double is read back from its text, the sign of a zero included. -/
theorem float?_text (value : Float) : float? (text value).toList = some value := by
  unfold text
  rw [ofFloat_eq]
  cases unpacked : value.toModel.unpack with
  | notANumber =>
    have special : value = 0 / 0 := eq_of_unpack unpacked
    subst special
    decide +kernel
  | infinity sign =>
    cases sign with
    | negative =>
      have special : value = -(1 / 0) := eq_of_unpack unpacked
      subst special
      decide +kernel
    | positive =>
      have special : value = 1 / 0 := eq_of_unpack unpacked
      subst special
      decide +kernel
  | zero sign =>
    cases sign with
    | negative =>
      have special : value = -0 := eq_of_unpack unpacked
      subst special
      decide +kernel
    | positive =>
      have special : value = 0 := eq_of_unpack unpacked
      subst special
      decide +kernel
  | finite sign mantissa exponent filled =>
    have representable := representable_of_unpack unpacked
    have read := finite?_shortest representable
    obtain ⟨positive, negative⟩ := float?_of_finite? read
    have same : value = .ofModel (.pack (.finite sign mantissa exponent filled)) := by
      rw [← unpacked, pack_unpack_toModel]
    simp only [Reading.ofUnpacked]
    cases sign with
    | positive =>
      rw [same, ← positive]
      simp [isNegative]
    | negative =>
      have negated :
          -Float.ofModel (.pack (.finite .positive mantissa exponent filled)) = value := by
        rw [same]
        exact congrArg (fun unpacked => Float.ofModel (.pack (UnpackedFloat.neg unpacked)))
          (unpack_pack representable .positive)
      rw [← negated, ← negative]
      simp [isNegative]

example : text 0.3 = "0.3" ∧ float? "0.3".toList = some 0.3 := by decide +kernel

end ConceptLaws.Decimal
