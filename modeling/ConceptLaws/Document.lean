import ConceptLaws.Identifier
import ConceptLaws.Json.Basic
import ConceptLaws.Payload

/-! Documents: what JSON and CBOR have in common when records are read from them.
A record is a group of named fields, or a list of their values in order. Unknown fields are skipped,
a known field comes at most once, and a field may be left out where it has a default. -/

namespace ConceptLaws

/-- The name of a field: a text, the place of the field among the known ones, something to skip, or
something that names nothing. -/
inductive FieldName where
  | named (content : String)
  | numbered (place : Nat)
  | skipped
  | invalid
deriving Repr, DecidableEq

inductive Document where
  | null
  | bool (value : Bool)
  | natural (value : Nat)
  | text (content : String)
  | list (items : List Document)
  | record (fields : List (FieldName × Document))
  /-- Bytes that spell no text. -/
  | binary
  /-- Anything that no field of a record can hold. -/
  | other
deriving Repr, Inhabited

namespace Document

mutual

def ofJson : Json → Document
  | .null => null
  | .bool value => bool value
  | .integer value => if value < 0 then other else natural value.toNat
  | .real _ => other
  | .string content => text content
  | .array items => list (ofItems items)
  | .object fields => record (ofFields fields)
  | .unusable => other

def ofItems : List Json → List Document
  | [] => []
  | item :: rest => ofJson item :: ofItems rest

def ofFields : List (String × Json) → List (FieldName × Document)
  | [] => []
  | (name, value) :: rest => (.named name, ofJson value) :: ofFields rest

end

def bool? : Document → Option Bool
  | bool value => some value
  | _ => none

def natural? : Document → Option Nat
  | natural value => if value < Decimal.wordCount then some value else none
  | _ => none

def text? : Document → Option String
  | text content => some content
  | _ => none

def list? {α : Type} (read : Document → Option α) : Document → Option (List α)
  | list items => items.mapM read
  | _ => none

def identifier? {kind : IdKind} (document : Document) : Option (Identifier kind) :=
  document.natural? >>= Identifier.ofNat?

def payload? (document : Document) : Option Payload := document.text?.map Payload.parse

/-- Null stands for nothing. -/
def optional? {α : Type} (read : Document → Option α) : Document → Option (Option α)
  | null => some none
  | document => (read document).map some

/-- A table with text keys; of a repeated key the last value counts. -/
def table? {α : Type} (read : Document → Option α) :
    Document → Option (Std.ExtTreeMap String α)
  | record fields =>
    fields.foldlM (fun table (name, value) =>
      match name with
      | .named key => (read value).map (table.insert key)
      | _ => none) ∅
  | _ => none

/-- The known fields that a record gives. -/
structure Fields where
  entries : List (String × Document)

/-- The name that a field has among the known ones; the inner option is empty for a field to skip.
-/
def knownName? (names : List String) : FieldName → Option (Option String)
  | .named name => some (if names.contains name then some name else none)
  | .numbered place => some names[place]?
  | .skipped => some none
  | .invalid => none

/-- Collects the known fields; a second one of the same name is refused. -/
def collect? (names : List String) : List (FieldName × Document) →
    Option (List (String × Document))
  | [] => some []
  | (field, value) :: rest =>
    match knownName? names field, collect? names rest with
    | some (some name), some others =>
      if others.any (·.1 == name) then none else some ((name, value) :: others)
    | some none, some others => some others
    | _, _ => none

/-- Reads a record with the given field names. -/
def fields? (names : List String) : Document → Option Fields
  | record fields => (collect? names fields).map Fields.mk
  | list items => if items.length ≤ names.length then some ⟨names.zip items⟩ else none
  | _ => none

namespace Fields

def required? {α : Type} (fields : Fields) (name : String) (read : Document → Option α) :
    Option α :=
  fields.entries.lookup name >>= read

def default? {α : Type} (fields : Fields) (name : String) (read : Document → Option α)
    (default : α) : Option α :=
  match fields.entries.lookup name with
  | some value => read value
  | none => some default

end Fields

end Document

end ConceptLaws
