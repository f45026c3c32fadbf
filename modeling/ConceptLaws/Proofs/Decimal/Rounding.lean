import Mathlib

/-! Rounding to the nearest double.
Arithmetic on unpacked doubles keeps a mantissa and two more bits, which tell where the exact number
lies between that mantissa and the next one. A number is rounded to a double if it lies within half
a unit of it, or a quarter of a unit below where the mantissa is the least of its exponent; of two
doubles equally near, the one with the even mantissa is taken. -/

namespace ConceptLaws.Decimal

open Float.Model Float.Model.UnpackedFloat

/-! ## Mantissas and residual bits -/

/-- What the round bit stands for. -/
def half (roundBit : Bool) : ℚ := cond roundBit (1 / 2) 0

/-- The mantissa, a half if the round bit is set, and less than a half, which is something exactly
if the sticky bit is set, make up the number. -/
def Tracks (extended : ExtendedMantissa) (value : ℚ) : Prop :=
  ∃ rest : ℚ, 0 ≤ rest ∧ rest < 1 / 2 ∧ (extended.stickyBit = true ↔ 0 < rest) ∧
    value = extended.mantissa + half extended.roundBit + rest

theorem half_cases (roundBit : Bool) :
    roundBit = true ∧ half roundBit = 1 / 2 ∨ roundBit = false ∧ half roundBit = 0 := by
  cases roundBit
  · exact .inr ⟨rfl, rfl⟩
  · exact .inl ⟨rfl, rfl⟩

theorem Tracks.bounds {extended : ExtendedMantissa} {value : ℚ} (tracks : Tracks extended value) :
    (extended.mantissa : ℚ) ≤ value ∧ value < extended.mantissa + 1 := by
  obtain ⟨rest, low, high, -, rfl⟩ := tracks
  rcases half_cases extended.roundBit with ⟨-, half⟩ | ⟨-, half⟩ <;> rw [half] <;>
    constructor <;> linarith

theorem half_odd (mantissa : Nat) : half (mantissa % 2 != 0) = (mantissa % 2 : Nat) / 2 := by
  rcases Nat.mod_two_eq_zero_or_one mantissa with parity | parity <;> rw [parity] <;> simp [half]

theorem Tracks.shiftRightOne {extended : ExtendedMantissa} {value : ℚ}
    (tracks : Tracks extended value) : Tracks extended.shiftRightOne (value / 2) := by
  obtain ⟨rest, low, high, sticky, rfl⟩ := tracks
  have halves : (extended.mantissa : ℚ) =
      2 * (extended.mantissa / 2 : Nat) + (extended.mantissa % 2 : Nat) := by
    exact_mod_cast (Nat.div_add_mod extended.mantissa 2).symm
  refine ⟨(half extended.roundBit + rest) / 2, ?_, ?_, ?_, ?_⟩
  · rcases half_cases extended.roundBit with ⟨-, half⟩ | ⟨-, half⟩ <;> rw [half] <;> linarith
  · rcases half_cases extended.roundBit with ⟨-, half⟩ | ⟨-, half⟩ <;> rw [half] <;> linarith
  · rw [ExtendedMantissa.shiftRightOne, Bool.or_eq_true, sticky]
    rcases half_cases extended.roundBit with ⟨bit, half⟩ | ⟨bit, half⟩ <;> rw [half, bit]
    · exact ⟨fun _ => by linarith, fun _ => .inl rfl⟩
    · simp
  · rw [ExtendedMantissa.shiftRightOne, half_odd, halves]
    ring

theorem Tracks.shiftRight {extended : ExtendedMantissa} {value : ℚ}
    (tracks : Tracks extended value) (count : Nat) :
    Tracks (extended >>> count) (value / 2 ^ count) := by
  induction count with
  | zero =>
    rw [pow_zero, div_one]
    exact tracks
  | succ count ih =>
    rw [pow_succ, ← div_div]
    exact ih.shiftRightOne

/-- The integer nearest to a number; of two equally near ones the even one. -/
def Nearest (mantissa : Nat) (value : ℚ) : Prop :=
  |value - mantissa| < 1 / 2 ∨ |value - mantissa| = 1 / 2 ∧ mantissa % 2 = 0

theorem Nearest.bounds {mantissa : Nat} {value : ℚ} (nearest : Nearest mantissa value) :
    value - 1 / 2 ≤ mantissa ∧ mantissa ≤ value + 1 / 2 := by
  have within : |value - mantissa| ≤ 1 / 2 := nearest.elim le_of_lt fun tie => tie.1.le
  rw [abs_le] at within
  constructor <;> linarith

theorem Nearest.unique {left right : Nat} {value : ℚ} (first : Nearest left value)
    (second : Nearest right value) : left = right := by
  have apart {low high : Nat} (below : low < high) (lowNearest : Nearest low value)
      (highNearest : Nearest high value) : False := by
    have next : (low : ℚ) + 1 ≤ high := by exact_mod_cast below
    have lowBound := lowNearest.bounds.1
    have highBound := highNearest.bounds.2
    -- Both are half a unit away, so both are even and next to each other.
    have tie : (high : ℚ) = low + 1 := by linarith
    have away : |value - low| = 1 / 2 ∧ |value - high| = 1 / 2 := by
      rw [show value = low + 1 / 2 by linarith, tie]
      constructor <;> norm_num [abs_of_pos, abs_of_neg]
    have lowEven : low % 2 = 0 := (lowNearest.resolve_left (by rw [away.1]; exact lt_irrefl _)).2
    have highEven : high % 2 = 0 := (highNearest.resolve_left (by rw [away.2]; exact lt_irrefl _)).2
    have successor : high = low + 1 := by exact_mod_cast tie
    omega
  rcases lt_trichotomy left right with below | same | above
  · exact (apart below first second).elim
  · exact same
  · exact (apart above second first).elim

/-- Rounding a mantissa goes to the nearest integer. -/
theorem Tracks.nearest {extended : ExtendedMantissa} {value : ℚ} (tracks : Tracks extended value) :
    Nearest extended.roundedMantissa value := by
  obtain ⟨mantissa, roundBit, stickyBit⟩ := extended
  obtain ⟨rest, low, high, sticky, rfl⟩ := tracks
  simp only [ExtendedMantissa.roundedMantissa]
  cases roundBit <;> cases stickyBit <;>
    simp only [Bool.false_eq_true, false_iff, true_iff, not_lt] at sticky <;>
    simp only [ExtendedMantissa.accuracy, Accuracy.roundToNearestEven, half, cond_true, cond_false]
  · refine .inl ?_
    rw [abs_lt]
    constructor <;> linarith
  · refine .inl ?_
    rw [abs_lt]
    constructor <;> linarith
  · -- A tie goes to the even one of the two neighbours.
    have tie : rest = 0 := le_antisymm sticky low
    subst tie
    refine .inr ⟨?_, by omega⟩
    rcases Nat.mod_two_eq_zero_or_one mantissa with parity | parity <;> rw [parity] <;> push_cast
    · rw [show (mantissa : ℚ) + 1 / 2 + 0 - (mantissa + 0) = 1 / 2 by ring]
      norm_num
    · rw [show (mantissa : ℚ) + 1 / 2 + 0 - (mantissa + 1) = -(1 / 2) by ring, abs_neg]
      norm_num
  · refine .inl ?_
    push_cast
    rw [abs_lt]
    constructor <;> linarith

/-! ## Exact numbers and quotients -/

theorem tracks_exact (mantissa : Nat) :
    Tracks (.ofMantissaAndAccuracy mantissa .exact) mantissa :=
  ⟨0, le_rfl, by norm_num, by simp [ExtendedMantissa.ofMantissaAndAccuracy],
    by simp [ExtendedMantissa.ofMantissaAndAccuracy, half]⟩

theorem tracks_quotient (numerator : Nat) {denominator : Nat} (positive : 0 < denominator) :
    Tracks (.ofMantissaAndAccuracy (numerator / denominator)
      (accuracyOfFraction (numerator % denominator) denominator))
      ((numerator : ℚ) / denominator) := by
  have divided : (numerator : ℚ) / denominator =
      (numerator / denominator : Nat) + (numerator % denominator : Nat) / denominator := by
    have whole : (numerator : ℚ) =
        denominator * (numerator / denominator : Nat) + (numerator % denominator : Nat) := by
      exact_mod_cast (Nat.div_add_mod numerator denominator).symm
    have nonzero : (denominator : ℚ) ≠ 0 := by exact_mod_cast positive.ne'
    field_simp
    linarith
  rw [divided]
  have proper := Nat.mod_lt numerator positive
  generalize numerator / denominator = quotient
  generalize numerator % denominator = remainder at proper
  have scale : (0 : ℚ) < denominator := by exact_mod_cast positive
  unfold accuracyOfFraction
  split
  next zero =>
    subst zero
    simpa using tracks_exact quotient
  next nonzero =>
    have some : (0 : ℚ) < remainder := by exact_mod_cast Nat.pos_of_ne_zero nonzero
    have share : (0 : ℚ) < remainder / denominator := div_pos some scale
    rcases lt_trichotomy (2 * remainder) denominator with less | tie | more
    · rw [Nat.compare_eq_lt.2 less]
      have bound : (remainder : ℚ) / denominator < 1 / 2 := by
        rw [div_lt_div_iff₀ scale two_pos]
        exact_mod_cast (by omega : remainder * 2 < 1 * denominator)
      exact ⟨_, share.le, bound, by simpa [ExtendedMantissa.ofMantissaAndAccuracy] using share,
        by simp [ExtendedMantissa.ofMantissaAndAccuracy, half]⟩
    · rw [Nat.compare_eq_eq.2 tie]
      have equal : (remainder : ℚ) / denominator = 1 / 2 := by
        rw [div_eq_div_iff scale.ne' two_ne_zero]
        exact_mod_cast (by omega : remainder * 2 = 1 * denominator)
      exact ⟨0, le_rfl, by norm_num, by simp [ExtendedMantissa.ofMantissaAndAccuracy],
        by simp [ExtendedMantissa.ofMantissaAndAccuracy, half, equal]⟩
    · rw [Nat.compare_eq_gt.2 more]
      have low : 1 / 2 < (remainder : ℚ) / denominator := by
        rw [div_lt_div_iff₀ two_pos scale]
        exact_mod_cast (by omega : 1 * denominator < remainder * 2)
      have high : (remainder : ℚ) / denominator < 1 := by
        rw [div_lt_one scale]
        exact_mod_cast proper
      refine ⟨remainder / denominator - 1 / 2, by linarith, by linarith, ?_, ?_⟩
      · simpa [ExtendedMantissa.ofMantissaAndAccuracy] using low
      · simp [ExtendedMantissa.ofMantissaAndAccuracy, half]

/-! ## Shifting to the exponent of a double -/

theorem targetExponent_binary64 (total : Int) :
    Format.binary64.targetExponent total = max (total - 53) (-1074) := rfl

/-- The exponent that a number is shifted to. -/
def shiftedExponent (mantissa : Nat) (exponent : Int) : Int :=
  max ((mantissa.log2 : Int) + exponent - 52) (-1074)

theorem shiftToTargetExponent_eq (mantissa : Nat) {exponent : Int} (accuracy : Accuracy)
    {count : Nat} (shifted : shiftedExponent mantissa exponent = exponent + count) :
    shiftToTargetExponent Format.binary64 mantissa exponent accuracy =
      (ExtendedMantissa.ofMantissaAndAccuracy mantissa accuracy >>> count,
        shiftedExponent mantissa exponent) := by
  have amount :
      (Format.binary64.targetExponent (totalExponent mantissa exponent) - exponent).toNat =
        count := by
    rw [targetExponent_binary64, totalExponent]
    unfold shiftedExponent at shifted
    omega
  rw [shiftToTargetExponent, shiftToExponent, amount, shifted]

/-- The mantissa and exponent of a double that is neither zero nor infinite. The mantissa fills its
bits unless the exponent is the least one. -/
structure Canonical (mantissa : Nat) (exponent : Int) : Prop where
  filled : 0 < mantissa
  small : mantissa < 2 ^ 53
  least : -1074 ≤ exponent
  normal : 2 ^ 52 ≤ mantissa ∨ exponent = -1074

theorem Canonical.shiftedExponent {mantissa : Nat} {exponent : Int}
    (canonical : Canonical mantissa exponent) : shiftedExponent mantissa exponent = exponent := by
  have upper : mantissa.log2 < 53 := (Nat.log2_lt canonical.filled.ne').2 canonical.small
  have least := canonical.least
  unfold Decimal.shiftedExponent
  rcases canonical.normal with normal | subnormal
  · have lower : 52 ≤ mantissa.log2 := (Nat.le_log2 canonical.filled.ne').2 normal
    omega
  · omega

/-- The numbers that are rounded to a double. Below the least mantissa of an exponent, doubles are
half as far apart. -/
structure RoundsTo (value : ℚ) (mantissa : Nat) (exponent : Int) : Prop where
  nearest : Nearest mantissa (value / 2 ^ exponent)
  quarter : mantissa = 2 ^ 52 → -1074 < exponent → 2 ^ 52 - 1 / 4 ≤ value / 2 ^ exponent

theorem two_zpow_pos (exponent : Int) : (0 : ℚ) < 2 ^ exponent := zpow_pos two_pos _

theorem two_zpow_lt {left right : Int} (less : (2 : ℚ) ^ left < 2 ^ right) : left < right :=
  (zpow_lt_zpow_iff_right₀ one_lt_two).1 less

/-- The mantissa tells how large the number is. -/
theorem Tracks.size {mantissa : Nat} {accuracy : Accuracy} {scale : Int} {value : ℚ}
    (tracks : Tracks (.ofMantissaAndAccuracy mantissa accuracy) (value / 2 ^ scale)) :
    value < 2 ^ (mantissa.log2 + scale + 1) ∧
      (mantissa ≠ 0 → (2 : ℚ) ^ (mantissa.log2 + scale) ≤ value) := by
  have same : (ExtendedMantissa.ofMantissaAndAccuracy mantissa accuracy).mantissa = mantissa := by
    rcases accuracy with _ | (_ | _ | _) <;> rfl
  obtain ⟨low, high⟩ := tracks.bounds
  rw [same] at low high
  constructor
  · have next : (mantissa : ℚ) + 1 ≤ 2 ^ (mantissa.log2 + 1) := by
      exact_mod_cast Nat.lt_log2_self
    have less : value / 2 ^ scale < 2 ^ ((mantissa.log2 : Int) + 1) := by
      exact_mod_cast high.trans_le next
    rw [div_lt_iff₀ (two_zpow_pos scale), ← zpow_add₀ two_ne_zero] at less
    rwa [show (mantissa.log2 : Int) + scale + 1 = mantissa.log2 + 1 + scale by ring]
  · intro nonzero
    have power : (2 : ℚ) ^ mantissa.log2 ≤ mantissa := by
      exact_mod_cast Nat.log2_self_le nonzero
    have more : (2 : ℚ) ^ (mantissa.log2 : Int) ≤ value / 2 ^ scale := by
      exact_mod_cast power.trans low
    rwa [le_div_iff₀ (two_zpow_pos scale), ← zpow_add₀ two_ne_zero] at more

theorem two_zpow_add (count exponent : Int) :
    (2 : ℚ) ^ (count + exponent) = 2 ^ count * 2 ^ exponent := zpow_add₀ two_ne_zero _ _

/-- The first shift does not go beyond the exponent of the double: the number has less than
`2 ^ 53` of its units. -/
theorem RoundsTo.shiftedExponent_le {value : ℚ} {mantissa : Nat} {exponent : Int}
    (rounds : RoundsTo value mantissa exponent) (canonical : Canonical mantissa exponent)
    {start : Nat} {scale : Int} {accuracy : Accuracy}
    (tracks : Tracks (.ofMantissaAndAccuracy start accuracy) (value / 2 ^ scale))
    (enough : scale ≤ Decimal.shiftedExponent start scale) :
    Decimal.shiftedExponent start scale ≤ exponent := by
  obtain ⟨-, above⟩ := tracks.size
  obtain ⟨low, -⟩ := rounds.nearest.bounds
  have least := canonical.least
  have small : (mantissa : ℚ) + 1 ≤ 2 ^ 53 := by exact_mod_cast canonical.small
  have bounded : value < 2 ^ (53 + exponent) := by
    rw [two_zpow_add, ← div_lt_iff₀ (two_zpow_pos exponent)]
    norm_num at small ⊢
    linarith
  unfold Decimal.shiftedExponent at enough ⊢
  by_cases zero : start = 0
  · subst zero
    simp only [Nat.log2_zero, Nat.cast_zero] at enough ⊢
    omega
  · have less := two_zpow_lt ((above zero).trans_lt bounded)
    omega

/-- The first shift reaches the exponent of the double, or stops one before it where the number lies
just below the least mantissa. -/
theorem RoundsTo.shiftedExponent {value : ℚ} {mantissa : Nat} {exponent : Int}
    (rounds : RoundsTo value mantissa exponent) (canonical : Canonical mantissa exponent)
    {start : Nat} {scale : Int} {accuracy : Accuracy}
    (tracks : Tracks (.ofMantissaAndAccuracy start accuracy) (value / 2 ^ scale))
    (enough : scale ≤ Decimal.shiftedExponent start scale) :
    Decimal.shiftedExponent start scale = exponent ∨
      Decimal.shiftedExponent start scale = exponent - 1 ∧ mantissa = 2 ^ 52 ∧ -1074 < exponent ∧
        value / 2 ^ exponent < 2 ^ 52 := by
  obtain ⟨below, -⟩ := tracks.size
  obtain ⟨-, high⟩ := rounds.nearest.bounds
  have unit := two_zpow_pos exponent
  refine (rounds.shiftedExponent_le canonical tracks enough).eq_or_lt.imp id fun short => ?_
  have larger : -1074 < exponent := by
    unfold Decimal.shiftedExponent at short
    omega
  -- The shift stops early only where there are fewer than `2 ^ 52` units.
  have fewer : value / 2 ^ exponent < 2 ^ 52 := by
    rw [div_lt_iff₀ unit]
    have bound : (start.log2 : Int) + scale + 1 ≤ 52 + exponent := by
      unfold Decimal.shiftedExponent at short
      omega
    have power : (2 : ℚ) ^ ((start.log2 : Int) + scale + 1) ≤ 2 ^ (52 + exponent) :=
      zpow_le_zpow_right₀ one_le_two bound
    rw [two_zpow_add 52] at power
    exact_mod_cast below.trans_le power
  have boundary : mantissa = 2 ^ 52 := by
    refine le_antisymm ?_ (canonical.normal.resolve_right larger.ne')
    have next : (mantissa : ℚ) < 2 ^ 52 + 1 := by linarith
    exact Nat.lt_succ_iff.1 (by exact_mod_cast next)
  refine ⟨?_, boundary, larger, fewer⟩
  have quarter := rounds.quarter boundary larger
  have more : (2 : ℚ) ^ (51 + exponent) < 2 ^ ((start.log2 : Int) + scale + 1) := by
    refine lt_trans ?_ below
    rw [two_zpow_add, ← lt_div_iff₀ unit]
    norm_num at quarter ⊢
    linarith
  have bound := two_zpow_lt more
  unfold Decimal.shiftedExponent at short ⊢
  omega

/-- The mantissa is shifted, rounded, and shifted again where rounding has carried too far. -/
theorem roundWithAccuracy_of_shifts {sign : Sign} {start rounded mantissa : Nat}
    {scale between exponent : Int} {accuracy : Accuracy} {first second : ExtendedMantissa}
    (shift : shiftToTargetExponent Format.binary64 start scale accuracy = (first, between))
    (rounds : first.roundedMantissa = rounded)
    (shiftAgain : shiftToTargetExponent Format.binary64 rounded between .exact = (second, exponent))
    (result : second.mantissa = mantissa) (filled : 0 < mantissa) :
    roundWithAccuracy Format.binary64 sign start scale accuracy =
      .finite sign mantissa exponent filled := by
  subst rounds result
  simp only [roundWithAccuracy, shift, shiftAgain]
  rw [dif_neg filled.ne']

/-- A number is rounded to the double that it lies next to. -/
theorem roundWithAccuracy_eq {value : ℚ} {mantissa : Nat} {exponent : Int}
    (rounds : RoundsTo value mantissa exponent) (canonical : Canonical mantissa exponent)
    {start : Nat} {scale : Int} {accuracy : Accuracy}
    (tracks : Tracks (.ofMantissaAndAccuracy start accuracy) (value / 2 ^ scale))
    (enough : scale ≤ shiftedExponent start scale) (sign : Sign) :
    roundWithAccuracy Format.binary64 sign start scale accuracy =
      .finite sign mantissa exponent canonical.filled := by
  obtain ⟨count, shifted⟩ := Int.le.dest enough
  have shift := shiftToTargetExponent_eq start accuracy shifted.symm
  have first := tracks.shiftRight count
  rw [div_div, ← zpow_natCast, ← zpow_add₀ two_ne_zero, shifted] at first
  rcases rounds.shiftedExponent canonical tracks enough with
    reached | ⟨short, boundary, larger, few⟩
  · rw [reached] at first shift
    have stays : shiftedExponent mantissa exponent = exponent + (0 : Nat) := by
      rw [canonical.shiftedExponent, Nat.cast_zero, add_zero]
    have shiftAgain := shiftToTargetExponent_eq mantissa .exact stays
    rw [canonical.shiftedExponent] at shiftAgain
    exact roundWithAccuracy_of_shifts shift (first.nearest.unique rounds.nearest) shiftAgain rfl
      canonical.filled
  · have doubled : value / 2 ^ (exponent - 1) = 2 * (value / 2 ^ exponent) := by
      rw [zpow_sub_one₀ two_ne_zero]
      field_simp
    have quarter := rounds.quarter boundary larger
    have full : Nearest (2 ^ 53) (value / 2 ^ (exponent - 1)) := by
      have within : |value / 2 ^ (exponent - 1) - (2 ^ 53 : Nat)| ≤ 1 / 2 := by
        rw [doubled, abs_le]
        push_cast
        constructor <;> linarith
      exact within.lt_or_eq.imp id fun tie => ⟨tie, by norm_num⟩
    rw [short] at first shift
    have carries : shiftedExponent (2 ^ 53) (exponent - 1) = exponent - 1 + (1 : Nat) := by
      unfold Decimal.shiftedExponent
      rw [Nat.log2_two_pow]
      push_cast
      omega
    have shiftAgain := shiftToTargetExponent_eq (2 ^ 53) .exact carries
    rw [carries, Nat.cast_one, sub_add_cancel] at shiftAgain
    have halved : (ExtendedMantissa.ofMantissaAndAccuracy (2 ^ 53) .exact >>> 1).mantissa =
        mantissa := by
      rw [boundary]
      decide +kernel
    exact roundWithAccuracy_of_shifts shift (first.nearest.unique full) shiftAgain halved
      canonical.filled

end ConceptLaws.Decimal
