import ConceptLaws.Identifier
import ConceptLaws.Json.Basic
import ConceptLaws.Payload

/-! Reports of values.
Reports write a number as a text, in its shortest digits, since a reader of JSON may round numbers.
Where numbers and texts may stand side by side, a number is marked `n:` and a text `t:`. -/

namespace ConceptLaws.Report

def orNull {α : Type} (encode : α → Json) : Option α → Json
  | some value => encode value
  | none => .null

def strings (items : List String) : Json := .array (items.map .string)

def identifier {kind : IdKind} (value : Identifier kind) : Json := .natural value.toNat

def identifiers {kind : IdKind} (values : List (Identifier kind)) : Json :=
  .array (values.map identifier)

def float (value : Float) : Json := .string (Decimal.text value)

def markedNumber (value : Float) : Json := .string ("n:" ++ Decimal.text value)

def markedText (content : String) : Json := .string ("t:" ++ content)

mutual

def datum : Datum → Json
  | .number value => markedNumber value
  | .text content => markedText content
  | .list items => .array (data items)

def data : List Datum → List Json
  | [] => []
  | first :: rest => datum first :: data rest

end

mutual

def item : Item → Json
  | .number value => .object [("number", float value)]
  | .atom content => .object [("text", .string content)]
  | .tuple members => .object [("tuple", .array (items members))]
  | .interval bounds =>
    .object [("interval", .array [float bounds.start, float bounds.finish]),
      ("closed", .array [.bool bounds.includesStart, .bool bounds.includesFinish])]

def items : List Item → List Json
  | [] => []
  | first :: rest => item first :: items rest

end

mutual

/-- An exported tree with its numbers and texts marked. -/
def exported : Json → Json
  | .integer value => .string ("n:" ++ toString value)
  | .real value => markedNumber value
  | .string content => markedText content
  | .array members => .array (exportedItems members)
  | .object fields => .object (exportedFields fields)
  | .null => .null
  | .bool value => .bool value
  | .unusable => .unusable

def exportedItems : List Json → List Json
  | [] => []
  | first :: rest => exported first :: exportedItems rest

def exportedFields : List (String × Json) → List (String × Json)
  | [] => []
  | (name, value) :: rest => (name, exported value) :: exportedFields rest

end

end ConceptLaws.Report
