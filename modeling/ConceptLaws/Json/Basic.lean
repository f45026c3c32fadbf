import ConceptLaws.Decimal.Shortest

/-! JSON values and their compact text.
A value keeps whether a number was written as an integer, and the fields of an object in the order
of the text, repeated names included. -/

namespace ConceptLaws

inductive Json where
  | null
  | bool (value : Bool)
  /-- A number written without point and exponent that fits a machine word. -/
  | integer (value : Int)
  | real (value : Float)
  | string (content : String)
  | array (items : List Json)
  | object (fields : List (String × Json))
  /-- Well formed, but without a value: a lone surrogate, or a number too large for a double. -/
  | unusable
deriving Repr, Inhabited

namespace Json

def natural (value : Nat) : Json := .integer value

def isNull : Json → Bool
  | null => true
  | _ => false

/-- The text or null. -/
def optional (content : Option String) : Json :=
  match content with
  | some content => .string content
  | none => .null

/-- The two lower hexadecimal digits of a number below 256. -/
def hexByte (value : Nat) : String :=
  String.ofList [Nat.digitChar (value / 16 % 16), Nat.digitChar (value % 16)]

/-- The characters that have to be escaped, with their short escapes where they have one. -/
def escapeChar (letter : Char) : String :=
  if letter = '"' then "\\\""
  else if letter = '\\' then "\\\\"
  else if letter.toNat = 8 then "\\b"
  else if letter.toNat = 12 then "\\f"
  else if letter = '\n' then "\\n"
  else if letter = '\r' then "\\r"
  else if letter = '\t' then "\\t"
  else if letter.toNat < 32 then "\\u00" ++ hexByte letter.toNat
  else letter.toString

def quote (content : String) : String :=
  "\"" ++ content.foldl (fun written letter => written ++ escapeChar letter) "" ++ "\""

mutual

/-- Text without blanks. -/
def compact : Json → String
  | null => "null"
  | bool value => if value then "true" else "false"
  | integer value => toString value
  | real value => if value.isFinite then Decimal.text value else "null"
  | string content => quote content
  | array items => "[" ++ ",".intercalate (compactItems items) ++ "]"
  | object fields => "\x7b" ++ ",".intercalate (compactFields fields) ++ "\x7d"
  | unusable => "null"

def compactItems : List Json → List String
  | [] => []
  | item :: rest => item.compact :: compactItems rest

def compactFields : List (String × Json) → List String
  | [] => []
  | (name, value) :: rest => (quote name ++ ":" ++ value.compact) :: compactFields rest

end

/-- The value of a field; none for other values than objects. -/
def field? (json : Json) (name : String) : Option Json :=
  match json with
  | object fields => fields.lookup name
  | _ => none

end Json

end ConceptLaws
