import ConceptLaws.Json.Basic
import ConceptLaws.Decimal.Numeral

/-! Reading JSON.
The reader accepts strict JSON with nothing but white space around the value. Values nest at most as
deep as the text is long, which bounds the recursion. -/

namespace ConceptLaws.Json

def isSpace (letter : Char) : Bool :=
  letter == ' ' || letter == '\n' || letter == '\t' || letter == '\r'

def skipSpace (letters : List Char) : List Char := letters.dropWhile isSpace

def hexValue? (letter : Char) : Option Nat :=
  if '0' ≤ letter && letter ≤ '9' then some (letter.toNat - '0'.toNat)
  else if 'a' ≤ letter && letter ≤ 'f' then some (letter.toNat - 'a'.toNat + 10)
  else if 'A' ≤ letter && letter ≤ 'F' then some (letter.toNat - 'A'.toNat + 10)
  else none

def hexUnit? (first second third fourth : Char) : Option Nat := do
  let first ← hexValue? first
  let second ← hexValue? second
  let third ← hexValue? third
  let fourth ← hexValue? fourth
  some (((first * 16 + second) * 16 + third) * 16 + fourth)

def shortEscape? : Char → Option Nat
  | '"' => some 34
  | '\\' => some 92
  | '/' => some 47
  | 'b' => some 8
  | 'f' => some 12
  | 'n' => some 10
  | 'r' => some 13
  | 't' => some 9
  | _ => none

/-- The code points of a string up to its closing quote, and what follows. Escaped surrogates stay
single numbers. -/
def codes? : List Char → Option (List Nat × List Char)
  | [] => none
  | '"' :: rest => some ([], rest)
  | '\\' :: 'u' :: first :: second :: third :: fourth :: rest => do
    let code ← hexUnit? first second third fourth
    let (codes, after) ← codes? rest
    some (code :: codes, after)
  | '\\' :: letter :: rest => do
    let code ← shortEscape? letter
    let (codes, after) ← codes? rest
    some (code :: codes, after)
  | letter :: rest =>
    if letter.toNat < 32 then none
    else (codes? rest).map fun (codes, after) => (letter.toNat :: codes, after)

def isHighSurrogate (code : Nat) : Bool := decide (0xD800 ≤ code ∧ code < 0xDC00)
def isLowSurrogate (code : Nat) : Bool := decide (0xDC00 ≤ code ∧ code < 0xE000)

/-- Joins surrogate pairs; a lone surrogate stands for no character. -/
def lettersOfCodes? : List Nat → Option (List Char)
  | [] => some []
  | high :: low :: rest =>
    if isHighSurrogate high then
      if isLowSurrogate low then
        (lettersOfCodes? rest).map
          (Char.ofNat (0x10000 + (high - 0xD800) * 0x400 + (low - 0xDC00)) :: ·)
      else none
    else if isLowSurrogate high then none
    else (lettersOfCodes? (low :: rest)).map (Char.ofNat high :: ·)
  | [code] =>
    if isHighSurrogate code || isLowSurrogate code then none else some [Char.ofNat code]

/-- The content of a string; the inner option is empty for one with a lone surrogate. -/
def string? (letters : List Char) : Option (Option String × List Char) :=
  (codes? letters).map fun (codes, after) => ((lettersOfCodes? codes).map String.ofList, after)

/-- The leading digits of a number as far as their value fits a machine word; with them the number
of integer digits left out and of fraction digits taken. -/
structure Significand where
  value : Nat
  droppedDigits : Nat
  fractionDigits : Nat

def Significand.ofInteger (digits : List Char) : Significand :=
  digits.foldl (fun taken letter =>
    let longer := taken.value * 10 + Decimal.digitValue letter
    if taken.droppedDigits = 0 && longer < Decimal.wordCount then { taken with value := longer }
    else { taken with droppedDigits := taken.droppedDigits + 1 }) ⟨0, 0, 0⟩

def Significand.addFraction (taken : Significand) : List Char → Significand
  | [] => taken
  | letter :: rest =>
    let longer := taken.value * 10 + Decimal.digitValue letter
    if longer < Decimal.wordCount then
      addFraction ⟨longer, taken.droppedDigits, taken.fractionDigits + 1⟩ rest
    else taken

/-- Scales a rounded significand by a power of ten; each step rounds once more. -/
def scale? (value : Float) (exponent : Int) : Option Float :=
  if value == 0 then some value
  else if exponent ≥ 0 then
    if exponent > 308 then none
    else
      let scaled := value * Float.ofScientific 1 false exponent.toNat
      if scaled.isFinite then some scaled else none
  else if exponent ≥ -308 then some (value / Float.ofScientific 1 false exponent.natAbs)
  else
    let lowered := value / 1e308
    if exponent ≥ -616 then some (lowered / Float.ofScientific 1 false (exponent + 308).natAbs)
    else some (lowered / 1e308)

def digitsPart (letters : List Char) : List Char × List Char :=
  (letters.takeWhile Decimal.isDigit, letters.dropWhile Decimal.isDigit)

/-- The exponent of a number, if it has one; a marker without digits is an error. -/
def exponentPart? (letters : List Char) : Option (Option Int × List Char) :=
  match letters with
  | marker :: rest =>
    if marker = 'e' || marker = 'E' then
      let (negative, after) := Decimal.splitSign rest
      let (digits, last) := digitsPart after
      if digits.isEmpty then none
      else
        let size : Int := Decimal.natOfDigits digits
        some (some (if negative then -size else size), last)
    else some (none, letters)
  | [] => some (none, [])

/-- The fraction digits of a number, if it has a point; a point without digits is an error. -/
def fractionPart? : List Char → Option (Option (List Char) × List Char)
  | '.' :: rest =>
    let (digits, after) := digitsPart rest
    if digits.isEmpty then none else some (some digits, after)
  | letters => some (none, letters)

/-- An integer where it fits a word of 64 bits, with or without sign; otherwise a double. -/
def ofNumeral (negative : Bool) (whole : List Char) (fraction : Option (List Char))
    (exponent : Option Int) : Json :=
  let taken := Significand.ofInteger whole
  let toReal (significand : Significand) (exponent : Int) : Json :=
    match scale? significand.value.toFloat
        (exponent + significand.droppedDigits - significand.fractionDigits) with
    | some value => .real (if negative then -value else value)
    | none => .unusable
  match fraction, exponent with
  | none, none =>
    if taken.droppedDigits > 0 then toReal taken 0
    else if negative then
      if taken.value = 0 || taken.value > Decimal.wordCount / 2 then toReal taken 0
      else .integer (-(taken.value : Int))
    else .integer taken.value
  | fraction, exponent => toReal (taken.addFraction (fraction.getD [])) (exponent.getD 0)

/-- The digits before the point: one zero, or digits that start with another one. -/
def wholePart? (letters : List Char) : Option (List Char × List Char) :=
  match digitsPart letters with
  | ([], _) => none
  | ('0' :: _ :: _, _) => none
  | part => some part

def number? (letters : List Char) : Option (Json × List Char) := do
  let negative := letters.head? == some '-'
  let (whole, afterWhole) ← wholePart? (if negative then letters.drop 1 else letters)
  let (fraction, afterFraction) ← fractionPart? afterWhole
  let (exponent, after) ← exponentPart? afterFraction
  some (ofNumeral negative whole fraction exponent, after)

def literal? (word : List Char) (value : Json) (letters : List Char) :
    Option (Json × List Char) :=
  if word.isPrefixOf letters then some (value, letters.drop word.length) else none

mutual

/-- The value at the start of a text, and what follows it. -/
def value? : Nat → List Char → Option (Json × List Char)
  | 0, _ => none
  | limit + 1, letters =>
    match skipSpace letters with
    | '"' :: rest =>
      match string? rest with
      | some (some content, after) => some (.string content, after)
      | some (none, after) => some (.unusable, after)
      | none => none
    | '[' :: rest =>
      match skipSpace rest with
      | ']' :: after => some (.array [], after)
      | _ => (items? limit rest).map fun (items, after) => (.array items, after)
    | '\x7b' :: rest =>
      match skipSpace rest with
      | '\x7d' :: after => some (.object [], after)
      | _ =>
        match fields? limit rest with
        | some (some fields, after) => some (.object fields, after)
        | some (none, after) => some (.unusable, after)
        | none => none
    | 'n' :: rest => literal? ['u', 'l', 'l'] .null rest
    | 't' :: rest => literal? ['r', 'u', 'e'] (.bool true) rest
    | 'f' :: rest => literal? ['a', 'l', 's', 'e'] (.bool false) rest
    | trimmed => number? trimmed

/-- The items of an array that is not empty, up to its closing bracket. -/
def items? : Nat → List Char → Option (List Json × List Char)
  | 0, _ => none
  | limit + 1, letters =>
    match value? limit letters with
    | none => none
    | some (first, after) =>
      match skipSpace after with
      | ']' :: rest => some ([first], rest)
      | ',' :: rest => (items? limit rest).map fun (others, last) => (first :: others, last)
      | _ => none

/-- The fields of an object that is not empty; the inner option is empty if a name is unusable. -/
def fields? : Nat → List Char → Option (Option (List (String × Json)) × List Char)
  | 0, _ => none
  | limit + 1, letters =>
    match skipSpace letters with
    | '"' :: rest =>
      match string? rest with
      | none => none
      | some (name, afterName) =>
        match skipSpace afterName with
        | ':' :: afterColon =>
          match value? limit afterColon with
          | none => none
          | some (value, after) =>
            let first : Option (String × Json) := name.map fun name => (name, value)
            match skipSpace after with
            | '\x7d' :: last => some (first.map ([·]), last)
            | ',' :: more =>
              (fields? limit more).map fun (others, last) =>
                ((do some ((← first) :: (← others))), last)
            | _ => none
        | _ => none
    | _ => none

end

/-- Reads a text that holds one value. -/
def parse? (source : String) : Option Json :=
  let letters := source.toList
  match value? (letters.length + 1) letters with
  | some (value, rest) => if (skipSpace rest).isEmpty then some value else none
  | none => none

end ConceptLaws.Json
