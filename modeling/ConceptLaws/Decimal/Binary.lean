/-! Finite doubles as integers times powers of two.
A finite double is a sign and a magnitude `mantissa * 2 ^ exponent`; exact arithmetic on magnitudes
gives the printed digits and the remainder of two doubles without rounding. -/

namespace ConceptLaws.Decimal

/-- The magnitude `mantissa * 2 ^ exponent`. -/
structure Magnitude where
  mantissa : Nat
  exponent : Int
deriving Repr, DecidableEq

/-- What the bits of a double stand for. -/
inductive Reading where
  | undefined
  | infinite (negative : Bool)
  | finite (negative : Bool) (magnitude : Magnitude)
deriving Repr, DecidableEq

/-- Two to the fifty-second, one more than the largest fraction. -/
def fractionSize : Nat := 4503599627370496

def fractionField (bits : Nat) : Nat := bits % fractionSize
def exponentField (bits : Nat) : Nat := bits / fractionSize % 2048
def signField (bits : Nat) : Bool := bits / (fractionSize * 2048) % 2 == 1

/-- Reads the three fields of a double. -/
def Reading.ofBits (bits : Nat) : Reading :=
  if exponentField bits = 2047 then
    if fractionField bits = 0 then .infinite (signField bits) else .undefined
  else if exponentField bits = 0 then
    .finite (signField bits) ⟨fractionField bits, -1074⟩
  else
    .finite (signField bits) ⟨fractionSize + fractionField bits, (exponentField bits : Int) - 1075⟩

def Reading.ofFloat (value : Float) : Reading := .ofBits value.toBits.toNat

/-- The bits of a magnitude that a double holds exactly: the mantissa is shifted left until it
fills the fraction or the smallest exponent is reached. -/
def Magnitude.toBits (magnitude : Magnitude) : Nat :=
  let room := min (52 - (magnitude.mantissa.log2 : Int)) (magnitude.exponent + 1074)
  let mantissa := magnitude.mantissa <<< room.toNat
  let exponent := magnitude.exponent - room
  if mantissa < fractionSize then mantissa
  else (exponent + 1075).toNat * fractionSize + (mantissa - fractionSize)

def Magnitude.toFloat (negative : Bool) (magnitude : Magnitude) : Float :=
  let value := Float.ofBits magnitude.toBits.toUInt64
  if negative then -value else value

/-- The remainder of two magnitudes, exact on the finer of the two grids. -/
def Magnitude.remainder (dividend divisor : Magnitude) : Magnitude :=
  let exponent := min dividend.exponent divisor.exponent
  let onGrid (magnitude : Magnitude) : Nat :=
    magnitude.mantissa <<< (magnitude.exponent - exponent).toNat
  ⟨onGrid dividend % onGrid divisor, exponent⟩

/-- The remainder after division truncated toward zero; it has the sign of the dividend. -/
def remainder (dividend divisor : Float) : Float :=
  match Reading.ofFloat dividend, Reading.ofFloat divisor with
  | .finite _ _, .infinite _ => dividend
  | .finite negative left, .finite _ right =>
    if right.mantissa = 0 then 0 / 0 else (left.remainder right).toFloat negative
  | _, _ => 0 / 0

end ConceptLaws.Decimal
