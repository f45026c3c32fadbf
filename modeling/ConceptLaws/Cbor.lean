import ConceptLaws.Digest
import ConceptLaws.Document

/-! Reading CBOR.
Heads may be longer than needed, lengths may be left open, and strings may come in chunks. A tag
stands before any item or key and adds nothing to it. Lists, maps and tags nest at most 127 deep.
What a record cannot hold is read over. -/

namespace ConceptLaws.Cbor

abbrev Bytes := List UInt8

def ofBigEndian (bytes : Bytes) : Nat := bytes.foldl (fun total byte => total * 256 + byte.toNat) 0

/-- The bytes at the front, if there are as many. -/
def takeBytes? (count : Nat) (bytes : Bytes) : Option (Bytes × Bytes) :=
  if bytes.length < count then none else some (bytes.take count, bytes.drop count)

/-- The number in a head, given the low bits of its first byte. -/
def argument? (low : Nat) (bytes : Bytes) : Option (Nat × Bytes) :=
  let wide (count : Nat) := (takeBytes? count bytes).map fun (taken, rest) =>
    (ofBigEndian taken, rest)
  if low < 24 then some (low, bytes)
  else if low = 24 then wide 1
  else if low = 25 then wide 2
  else if low = 26 then wide 4
  else if low = 27 then wide 8
  else none

/-- The chunks of a string of open length, put together. -/
def chunks? (major : Nat) : Nat → Bytes → Option (Bytes × Bytes)
  | 0, _ => none
  | limit + 1, bytes =>
    match bytes with
    | [] => none
    | first :: rest =>
      if first = 0xff then some ([], rest)
      else if first.toNat / 32 = major then do
        let (length, content) ← argument? (first.toNat % 32) rest
        let (chunk, after) ← takeBytes? length content
        let (others, last) ← chunks? major limit after
        some (chunk ++ others, last)
      else none

/-- The content of a byte or text string. -/
def string? (major low : Nat) (bytes : Bytes) : Option (Bytes × Bytes) :=
  if low = 31 then chunks? major (bytes.length + 1) bytes
  else do
    let (length, content) ← argument? low bytes
    takeBytes? length content

def textOf? (bytes : Bytes) : Option String := String.fromUTF8? ⟨bytes.toArray⟩

/-- Reads a document off the front of the bytes. -/
abbrev ItemReader := Bytes → Option (Document × Bytes)

def items? (item : ItemReader) : Nat → Bytes → Option (List Document × Bytes)
  | 0, bytes => some ([], bytes)
  | count + 1, bytes => do
    let (first, rest) ← item bytes
    let (others, last) ← items? item count rest
    some (first :: others, last)

def openItems? (item : ItemReader) : Nat → Bytes → Option (List Document × Bytes)
  | 0, _ => none
  | limit + 1, bytes =>
    if bytes.head? = some 0xff then some ([], bytes.drop 1)
    else do
      let (first, rest) ← item bytes
      let (others, last) ← openItems? item limit rest
      some (first :: others, last)

/-- The name that a key gives: texts name a field, numbers count the known fields, and no field has
a name that is not a text. -/
def nameOf : Document → FieldName
  | .text content => .named content
  | .natural place => .numbered place
  | .binary => .skipped
  | _ => .invalid

def field? (item : ItemReader) (bytes : Bytes) : Option ((FieldName × Document) × Bytes) := do
  let (key, rest) ← item bytes
  let (value, after) ← item rest
  some ((nameOf key, value), after)

def fields? (item : ItemReader) : Nat → Bytes → Option (List (FieldName × Document) × Bytes)
  | 0, bytes => some ([], bytes)
  | count + 1, bytes => do
    let (first, rest) ← field? item bytes
    let (others, last) ← fields? item count rest
    some (first :: others, last)

def openFields? (item : ItemReader) : Nat → Bytes → Option (List (FieldName × Document) × Bytes)
  | 0, _ => none
  | limit + 1, bytes =>
    if bytes.head? = some 0xff then some ([], bytes.drop 1)
    else do
      let (first, rest) ← field? item bytes
      let (others, last) ← openFields? item limit rest
      some (first :: others, last)

def list? (item : ItemReader) (low : Nat) (bytes : Bytes) : Option (Document × Bytes) := do
  let (items, rest) ←
    if low = 31 then openItems? item (bytes.length + 1) bytes
    else (argument? low bytes) >>= fun (count, content) => items? item count content
  some (.list items, rest)

def map? (item : ItemReader) (low : Nat) (bytes : Bytes) : Option (Document × Bytes) := do
  let (fields, rest) ←
    if low = 31 then openFields? item (bytes.length + 1) bytes
    else (argument? low bytes) >>= fun (count, content) => fields? item count content
  some (.record fields, rest)

/-- Truth values, null, and what else has no argument; floats are read over. -/
def simple? (low : Nat) (bytes : Bytes) : Option (Document × Bytes) :=
  match low with
  | 20 => some (.bool false, bytes)
  | 21 => some (.bool true, bytes)
  | 22 => some (.null, bytes)
  | 23 => some (.other, bytes)
  | 25 => (takeBytes? 2 bytes).map fun (_, rest) => (.other, rest)
  | 26 => (takeBytes? 4 bytes).map fun (_, rest) => (.other, rest)
  | 27 => (takeBytes? 8 bytes).map fun (_, rest) => (.other, rest)
  | _ => none

/-- An item that holds no others. -/
def leaf? (major low : Nat) (bytes : Bytes) : Option (Document × Bytes) :=
  match major with
  | 0 => (argument? low bytes).map fun (value, rest) => (.natural value, rest)
  | 1 => (argument? low bytes).map fun (_, rest) => (.other, rest)
  | 2 => (string? 2 low bytes).map fun (content, rest) =>
    (match textOf? content with
      | some text => .text text
      | none => .binary, rest)
  | 3 => do
    let (content, rest) ← string? 3 low bytes
    let text ← textOf? content
    some (.text text, rest)
  | 7 => simple? low bytes
  | _ => none

/-- What an item under a tag stands for: tags add nothing, but a tagged null is not an absent value.
-/
def tagged : Document → Document
  | .null => .other
  | document => document

/-- Reads an item with room for `depth` lists, maps and tags inside one another. -/
def item? : Nat → ItemReader
  | _, [] => none
  | 0, first :: rest => leaf? (first.toNat / 32) (first.toNat % 32) rest
  | depth + 1, first :: rest =>
    let low := first.toNat % 32
    match first.toNat / 32 with
    | 4 => list? (item? depth) low rest
    | 5 => map? (item? depth) low rest
    | 6 => do
      let (_, content) ← argument? low rest
      let (document, after) ← item? depth content
      some (tagged document, after)
    | major => leaf? major low rest

/-- Reads bytes that hold one item. -/
def read? (bytes : Bytes) : Option Document :=
  match item? 127 bytes with
  | some (document, []) => some document
  | _ => none

end ConceptLaws.Cbor

/-! Writing documents as CBOR: definite lengths and the shortest head for each number. -/

namespace ConceptLaws.Cbor

/-- The head of an item: its major type and a number below two to the sixty-fourth. -/
def head (major value : Nat) : List UInt8 :=
  let first (low : Nat) : UInt8 := (major * 32 + low).toUInt8
  if value < 24 then [first value]
  else if value < 0x100 then first 24 :: Sha256.bigEndian 1 value
  else if value < 0x10000 then first 25 :: Sha256.bigEndian 2 value
  else if value < 0x100000000 then first 26 :: Sha256.bigEndian 4 value
  else first 27 :: Sha256.bigEndian 8 value

def writeText (content : String) : List UInt8 :=
  let bytes := Fingerprint.textBytes content
  head 3 bytes.length ++ bytes

def writeName : FieldName → List UInt8
  | .named content => writeText content
  | .numbered place => head 0 place
  | .skipped => head 2 1 ++ [0xff]
  | .invalid => [0xf6]

mutual

def write : Document → List UInt8
  | .null => [0xf6]
  | .bool value => if value then [0xf5] else [0xf4]
  | .natural value => head 0 value
  | .text content => writeText content
  | .list items => head 4 items.length ++ writeItems items
  | .record fields => head 5 fields.length ++ writeFields fields
  | .binary => head 2 1 ++ [0xff]
  | .other => [0xf7]

def writeItems : List Document → List UInt8
  | [] => []
  | item :: rest => write item ++ writeItems rest

def writeFields : List (FieldName × Document) → List UInt8
  | [] => []
  | (name, value) :: rest => writeName name ++ write value ++ writeFields rest

end

end ConceptLaws.Cbor
