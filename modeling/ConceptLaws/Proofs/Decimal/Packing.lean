import ConceptLaws.Decimal.Binary
import ConceptLaws.Proofs.Decimal.Rounding

/-! Doubles and their bits.
The reading of a double is that of its unpacked form. Doubles that unpack alike are the same, and a
mantissa and exponent that a double can have are found again when they are packed. -/

namespace ConceptLaws.Decimal

open Float.Model Float.Model.UnpackedFloat

/-! ## Readings -/

def isNegative : Sign → Bool
  | .negative => true
  | .positive => false

/-- What an unpacked double stands for. -/
def Reading.ofUnpacked : UnpackedFloat → Reading
  | .infinity sign => .infinite (isNegative sign)
  | .notANumber => .undefined
  | .zero sign => .finite (isNegative sign) ⟨0, -1074⟩
  | .finite sign mantissa exponent _ => .finite (isNegative sign) ⟨mantissa, exponent⟩

theorem toNat_unpackMantissa (bits : BitVec 64) :
    (@unpackMantissa Format.binary64 bits).toNat = fractionField bits.toNat := by
  rw [unpackMantissa_def, BitVec.extractLsb'_toNat, Nat.shiftRight_zero]
  rfl

theorem toNat_unpackExponent (bits : BitVec 64) :
    (@unpackExponent Format.binary64 bits).toNat = exponentField bits.toNat := by
  rw [unpackExponent_def, BitVec.extractLsb'_toNat, Nat.shiftRight_eq_div_pow]
  rfl

theorem isNegative_unpackSign (bits : BitVec 64) :
    isNegative (Sign.ofBitVec (@unpackSign Format.binary64 bits)) = signField bits.toNat := by
  have told : ∀ bit : BitVec 1, isNegative (Sign.ofBitVec bit) = (bit.toNat == 1) := by decide
  rw [told, unpackSign_def, BitVec.extractLsb'_toNat, Nat.shiftRight_eq_div_pow]
  rfl

theorem ofBits_toNat (bits : BitVec 64) :
    Reading.ofBits bits.toNat = .ofUnpacked (UnpackedFloat.unpack Format.binary64 bits) := by
  have infinite : @unpackExponent Format.binary64 bits = -1#11 ↔
      exponentField bits.toNat = 2047 := by
    rw [← toNat_unpackExponent]
    exact BitVec.toNat_inj.symm
  have least : @unpackExponent Format.binary64 bits = 0#11 ↔ exponentField bits.toNat = 0 := by
    rw [← toNat_unpackExponent]
    exact BitVec.toNat_inj.symm
  have empty : @unpackMantissa Format.binary64 bits = 0#52 ↔ fractionField bits.toNat = 0 := by
    rw [← toNat_unpackMantissa]
    exact BitVec.toNat_inj.symm
  have whole : (1#1 ++ @unpackMantissa Format.binary64 bits).toNat =
      fractionSize + fractionField bits.toNat := by
    rw [BitVec.toNat_append, ← toNat_unpackMantissa,
      ← Nat.shiftLeft_add_eq_or_of_lt (@unpackMantissa Format.binary64 bits).isLt]
    rfl
  simp only [Reading.ofBits, UnpackedFloat.unpack, infinite, least, empty, whole,
    toNat_unpackMantissa, toNat_unpackExponent]
  by_cases all : exponentField bits.toNat = 2047
  · by_cases none : fractionField bits.toNat = 0
    · simp [all, none, Reading.ofUnpacked, isNegative_unpackSign]
    · simp [all, none, Reading.ofUnpacked]
  · by_cases zero : exponentField bits.toNat = 0
    · by_cases none : fractionField bits.toNat = 0
      · simp [zero, none, Reading.ofUnpacked, isNegative_unpackSign]
      · simp [zero, none, Reading.ofUnpacked, isNegative_unpackSign, Format.exponentBias]
    · simp [all, zero, Reading.ofUnpacked, isNegative_unpackSign, Format.exponentBias]

/-- The reading of a double is that of its unpacked form. -/
theorem ofFloat_eq (value : Float) :
    Reading.ofFloat value = .ofUnpacked value.toModel.unpack :=
  ofBits_toNat value.toModel.toBits.toBitVec

/-- Doubles that unpack alike are the same. -/
theorem eq_of_unpack {left right : Float} (same : left.toModel.unpack = right.toModel.unpack) :
    left = right := by
  rw [← Float.toBits_inj, ← UInt64.toBitVec_inj]
  exact (unpack_inj_of_valid left.toModel.valid right.toModel.valid).1 same

/-- A double is packed from its unpacked form. -/
theorem pack_unpack_toModel (value : Float) :
    Float.ofModel (Float.Model.pack value.toModel.unpack) = value := by
  rw [← Float.toBits_inj, ← UInt64.toBitVec_inj]
  exact pack_unpack_of_valid value.toModel.valid

/-! ## Finite doubles -/

/-- The mantissa and exponent of a double. -/
structure Representable (mantissa : Nat) (exponent : Int) : Prop
    extends Canonical mantissa exponent where
  greatest : exponent ≤ 971

theorem representable_of_unpack {value : Float} {sign : Sign} {mantissa : Nat} {exponent : Int}
    {filled : 0 < mantissa}
    (unpacked : value.toModel.unpack = .finite sign mantissa exponent filled) :
    Representable mantissa exponent := by
  have reading := ofFloat_eq value
  rw [unpacked, Reading.ofUnpacked, Reading.ofFloat, Reading.ofBits] at reading
  have fraction : fractionField value.toBits.toNat < fractionSize := Nat.mod_lt _ (by decide)
  have field : exponentField value.toBits.toNat < 2048 := Nat.mod_lt _ (by decide)
  have size : fractionSize = 2 ^ 52 := by decide
  split at reading
  · split at reading <;> cases reading
  next finite =>
    split at reading
    next least =>
      simp only [Reading.finite.injEq, Magnitude.mk.injEq] at reading
      obtain ⟨-, rfl, rfl⟩ := reading
      exact ⟨⟨filled, by omega, by omega, .inr rfl⟩, by omega⟩
    next more =>
      simp only [Reading.finite.injEq, Magnitude.mk.injEq] at reading
      obtain ⟨-, rfl, rfl⟩ := reading
      exact ⟨⟨filled, by omega, by omega, .inl (by omega)⟩, by omega⟩

theorem unpack_subnormal (sign : Sign) {mantissa : BitVec 52} (filled : 0 < mantissa.toNat) :
    UnpackedFloat.unpack Format.binary64 (packComponents Format.binary64 sign 0#11 mantissa) =
      .finite sign mantissa.toNat (-1074) filled := by
  have nonzero : mantissa ≠ 0#52 := by
    rintro rfl
    exact absurd filled (by decide)
  simp [UnpackedFloat.unpack, nonzero, Format.exponentBias]

theorem unpack_normal (sign : Sign) {exponent : BitVec 11} (mantissa : BitVec 52)
    (low : exponent ≠ 0#11) (high : exponent ≠ 2047#11) (filled : 0 < 2 ^ 52 + mantissa.toNat) :
    UnpackedFloat.unpack Format.binary64 (packComponents Format.binary64 sign exponent mantissa) =
      .finite sign (2 ^ 52 + mantissa.toNat) (exponent.toNat - 1075) filled := by
  have whole : (1#1 ++ mantissa).toNat = 2 ^ 52 + mantissa.toNat := by
    rw [BitVec.toNat_append, ← Nat.shiftLeft_add_eq_or_of_lt mantissa.isLt]
    rfl
  simp [UnpackedFloat.unpack, low, high, whole, Format.exponentBias]

/-- What is packed is found again. -/
theorem unpack_pack {mantissa : Nat} {exponent : Int}
    (representable : Representable mantissa exponent) (sign : Sign) :
    (Float.Model.pack (.finite sign mantissa exponent representable.filled)).unpack =
      .finite sign mantissa exponent representable.filled := by
  obtain ⟨⟨filled, small, least, normal⟩, greatest⟩ := representable
  have upper := (Nat.log2_lt filled.ne').2 small
  have lower := (Nat.le_log2 (k := 52) filled.ne')
  unfold Float.Model.unpack Float.Model.pack UnpackedFloat.pack
  have bias : (Format.binary64.exponentBias : Int) + (52 : Nat) = 1075 := rfl
  have bits : Format.binary64.mantissaBits = 53 := rfl
  dsimp only
  rw [add_assoc, bias, bits, if_neg (by omega)]
  split
  next full =>
    have fraction : (BitVec.ofNat 52 mantissa).toNat = mantissa - 2 ^ 52 := by
      rw [BitVec.toNat_ofNat]
      omega
    have field : (BitVec.ofNat 11 (exponent + 1075).toNat).toNat = (exponent + 1075).toNat := by
      rw [BitVec.toNat_ofNat]
      omega
    refine (unpack_normal sign _ ?_ ?_ (by omega)).trans ?_
    · rw [ne_eq, ← BitVec.toNat_inj, field, BitVec.toNat_ofNat]
      omega
    · rw [ne_eq, ← BitVec.toNat_inj, field, BitVec.toNat_ofNat]
      omega
    · simp only [fraction, field, UnpackedFloat.finite.injEq, true_and]
      omega
  · have fraction : (BitVec.ofNat 52 mantissa).toNat = mantissa := by
      rw [BitVec.toNat_ofNat]
      omega
    refine (unpack_subnormal sign (by omega)).trans ?_
    simp only [fraction, UnpackedFloat.finite.injEq, true_and]
    omega

end ConceptLaws.Decimal
