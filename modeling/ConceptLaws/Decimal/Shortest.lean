import ConceptLaws.Decimal.Binary

/-! The fewest decimal digits that read back as a given double.
The reals that round to a double form an interval around it, ends included when the mantissa is
even. The search goes down the powers of ten and stops at the first grid with a point in that
interval; of two such points the nearer to the double is taken, the larger one on a tie. -/

namespace ConceptLaws.Decimal

/-- The number `digits * 10 ^ exponent`. -/
structure Scientific where
  digits : Nat
  exponent : Int
deriving Repr, DecidableEq

/-- The numbers that round to a magnitude, over the common denominator `denominator`. -/
structure RoundingInterval where
  lower : Nat
  centre : Nat
  upper : Nat
  denominator : Nat
  closed : Bool
deriving Repr, DecidableEq

/-- Half a unit above; half a unit below, or a quarter where the mantissa is the least of its
exponent. -/
def Magnitude.interval (magnitude : Magnitude) : RoundingInterval :=
  let below := if magnitude.mantissa = fractionSize && magnitude.exponent > -1074 then 1 else 2
  let scale := Nat.pow 2 (magnitude.exponent - 2).toNat
  { lower := (4 * magnitude.mantissa - below) * scale
    centre := 4 * magnitude.mantissa * scale
    upper := (4 * magnitude.mantissa + 2) * scale
    denominator := Nat.pow 2 (2 - magnitude.exponent).toNat
    closed := magnitude.mantissa % 2 == 0 }

/-- The interval in units of `10 ^ exponent`. -/
def RoundingInterval.inUnits (interval : RoundingInterval) (exponent : Int) : RoundingInterval :=
  let up := Nat.pow 10 (-exponent).toNat
  { interval with
    lower := interval.lower * up
    centre := interval.centre * up
    upper := interval.upper * up
    denominator := interval.denominator * Nat.pow 10 exponent.toNat }

def RoundingInterval.contains (interval : RoundingInterval) (point : Nat) : Bool :=
  let scaled := point * interval.denominator
  if interval.closed then decide (interval.lower ≤ scaled ∧ scaled ≤ interval.upper)
  else decide (interval.lower < scaled ∧ scaled < interval.upper)

/-- The integer nearest to the centre that lies in the interval, if one does. -/
def RoundingInterval.nearest? (interval : RoundingInterval) : Option Nat :=
  let low := interval.centre / interval.denominator
  let high := low + 1
  match interval.contains low, interval.contains high with
  | true, true =>
    if interval.centre - low * interval.denominator < high * interval.denominator - interval.centre
    then some low else some high
  | true, false => some low
  | false, true => some high
  | false, false => none

/-- Tries the exponents from `exponent` downwards, at most `steps` of them. -/
def shortestFrom (interval : RoundingInterval) : Nat → Int → Scientific
  | 0, exponent => ⟨(interval.inUnits exponent).centre / (interval.inUnits exponent).denominator,
      exponent⟩
  | steps + 1, exponent =>
    match (interval.inUnits exponent).nearest? with
    | some digits => ⟨digits, exponent⟩
    | none => shortestFrom interval steps (exponent - 1)

/-- A power of ten not below the magnitude: `30103 / 100000` is just above the logarithm of two. -/
def Magnitude.decimalExponent (magnitude : Magnitude) : Int :=
  (magnitude.mantissa.log2 + 1 + magnitude.exponent) * 30103 / 100000 + 1

/-- Twenty-four grids reach from above the magnitude to below seventeen significant digits. -/
def Magnitude.shortest (magnitude : Magnitude) : Scientific :=
  if magnitude.mantissa = 0 then ⟨0, 0⟩
  else shortestFrom magnitude.interval 24 magnitude.decimalExponent

end ConceptLaws.Decimal

/-! Positional text of a double: the shortest digits, never an exponent, no fraction on integers. -/

namespace ConceptLaws.Decimal

def digitList (value : Nat) : List Char := Nat.toDigits 10 value

/-- Puts the point `places` digits from the right, with leading zeros where digits are missing. -/
def placePoint (digits : List Char) (places : Nat) : List Char :=
  let padded := List.replicate (places + 1 - digits.length) '0' ++ digits
  padded.take (padded.length - places) ++ '.' :: padded.drop (padded.length - places)

def Scientific.positional (number : Scientific) : List Char :=
  if number.exponent < 0 then placePoint (digitList number.digits) (-number.exponent).toNat
  else digitList number.digits ++ List.replicate number.exponent.toNat '0'

/-- The text of a double; a negative zero keeps its sign. -/
def text (value : Float) : String :=
  let signed (negative : Bool) (body : String) := if negative then "-" ++ body else body
  match Reading.ofFloat value with
  | .undefined => "NaN"
  | .infinite negative => signed negative "inf"
  | .finite negative magnitude => signed negative (String.ofList magnitude.shortest.positional)

end ConceptLaws.Decimal
