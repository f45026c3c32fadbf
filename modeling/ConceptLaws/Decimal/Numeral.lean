/-! Reading numbers.
A float numeral is an optional sign, digits with at most one point and at least one digit, and an
optional exponent; or a sign and `inf`, `infinity` or `nan` in any case. An index is an optional
plus sign and digits, below two to the sixty-fourth. -/

namespace ConceptLaws.Decimal

def isDigit (letter : Char) : Bool := '0' ≤ letter && letter ≤ '9'

def digitValue (letter : Char) : Nat := letter.toNat - '0'.toNat

def natOfDigits (digits : List Char) : Nat :=
  digits.foldl (fun total letter => total * 10 + digitValue letter) 0

/-- An optional sign; the flag is set by a minus. -/
def splitSign : List Char → Bool × List Char
  | '-' :: rest => (true, rest)
  | '+' :: rest => (false, rest)
  | rest => (false, rest)

/-- The digits before and after the point, and what follows them. -/
def splitMantissa (letters : List Char) : List Char × List Char × List Char :=
  let whole := letters.takeWhile isDigit
  match letters.dropWhile isDigit with
  | '.' :: rest => (whole, rest.takeWhile isDigit, rest.dropWhile isDigit)
  | rest => (whole, [], rest)

/-- The size of an exponent. It grows no further once it has reached 65536, whatever digits follow.
-/
def exponentSize (digits : List Char) : Nat :=
  digits.foldl (fun size letter =>
    if size < 65536 then size * 10 + digitValue letter else size) 0

/-- The exponent that ends a numeral; nothing stands for zero. -/
def exponent? : List Char → Option Int
  | [] => some 0
  | marker :: rest =>
    if marker = 'e' || marker = 'E' then
      let (negative, digits) := splitSign rest
      if digits.isEmpty || !digits.all isDigit then none
      else some (if negative then -(exponentSize digits : Int) else exponentSize digits)
    else none

/-- The double nearest to `mantissa * 10 ^ exponent`, for a mantissa of so many digits; beyond the
range it is infinite or zero, told before any power is taken. -/
def nearestFloat (mantissa : Nat) (digitCount : Nat) (exponent : Int) : Float :=
  if mantissa = 0 then 0
  else if digitCount + exponent < -400 then 0
  else if digitCount + exponent > 400 then 1 / 0
  else Float.ofScientific mantissa (exponent < 0) exponent.natAbs

/-- How many digits are read one by one. A double, and the middle of two doubles, has at most 767
significant digits; of those beyond this count it only matters whether one is not zero. -/
def decisiveDigits : Nat := 800

/-- The double nearest to the integer of the digits times a power of ten. -/
def nearestOfDigits (digits : List Char) (exponent : Int) : Float :=
  let significant := digits.dropWhile (· == '0')
  let (kept, beyond) := significant.splitAt decisiveDigits
  match beyond with
  | [] => nearestFloat (natOfDigits kept) kept.length exponent
  | _ =>
    let last := if beyond.all (· == '0') then 0 else 1
    nearestFloat (natOfDigits kept * 10 + last) (kept.length + 1) (exponent + beyond.length - 1)

def finite? (letters : List Char) : Option Float :=
  let (whole, fraction, rest) := splitMantissa letters
  let digits := whole ++ fraction
  if digits.isEmpty then none
  else (exponent? rest).map fun exponent => nearestOfDigits digits (exponent - fraction.length)

def special? (letters : List Char) : Option Float :=
  let lowered := letters.map Char.toLower
  if lowered = ['i', 'n', 'f'] || lowered = ['i', 'n', 'f', 'i', 'n', 'i', 't', 'y'] then
    some (1 / 0)
  else if lowered = ['n', 'a', 'n'] then some (0 / 0)
  else none

/-- Reads a double. -/
def float? (letters : List Char) : Option Float :=
  let (negative, body) := splitSign letters
  ((finite? body).or (special? body)).map fun value => if negative then -value else value

/-- The number of values of an index or identifier, two to the sixty-fourth. -/
def wordCount : Nat := 18446744073709551616

/-- Reads an index. -/
def index? (letters : List Char) : Option Nat :=
  let digits := match letters with
    | '+' :: rest => rest
    | rest => rest
  if digits.isEmpty || !digits.all isDigit then none
  else if natOfDigits digits < wordCount then some (natOfDigits digits) else none

end ConceptLaws.Decimal
