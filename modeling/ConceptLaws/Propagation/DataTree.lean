import ConceptLaws.Json.Basic
import ConceptLaws.Markup
import ConceptLaws.Propagation.Network
import ConceptLaws.Relation.Entity

/-! Data trees of entities.
A tree starts with primary data, which is known: the concept, the value, and the text of the symbol.
Commands write derived data, which is locked, and never at or below a known key. -/

namespace ConceptLaws.Propagation

def conceptSegment : String := "concept"
def valueSegment : String := "value"
def symbolSegment : String := "symbol"
/-- Where the value of a key with children is exported. -/
def ownValueSegment : String := "_value"

def symbolPath : Path := [symbolSegment]

/-- The two trees of an entity. -/
structure EntityTrees where
  data : Handle
  variableTable : Handle
deriving Repr, DecidableEq

/-- What is shown of a key. -/
structure Field where
  path : Path
  value : Option Datum
  previous : Option Datum
  locked : Bool
  known : Bool
  propagated : Bool

inductive FieldFault where
  | unknownEntity (entity : EntityId)
  | locked (entity : EntityId) (path : Path)
deriving Repr, DecidableEq

def FieldFault.message : FieldFault → String
  | unknownEntity entity =>
    "no data tree for entity " ++ entity.display ++ "; run a propagation pass first"
  | locked entity path =>
    "field `" ++ path.display ++ "` of entity " ++ entity.display ++
      " is derived and cannot be edited"

namespace Network

def seed (network : Network) (tree : Handle) (path : Path) (value : Datum) (known : Bool) :
    Network :=
  network.ensureWith ⟨tree, path⟩ fun cell => { cell with value := some value, known := known }

/-- What the symbol text of an entity starts with: its name, its number, or, not yet known, the
symbol of its concept. -/
def symbolSeed? (entity : Entity) (concept : Concept) : Option (String × Bool) :=
  match entity.name, entity.value.asNumber? with
  | some name, _ => some (Markup.identifier name, true)
  | none, some value => some (Markup.number value, true)
  | none, none => concept.symbol.map fun markup => (markup, false)

/-- Creates the trees of an entity and fills in its primary data. -/
def createEntity (network : Network) (entity : Entity) (concept : Concept)
    (precedence : Option Nat) : EntityTrees × Network :=
  let (data, network) := network.create (.data ⟨entity.id, precedence⟩)
  let (variableTable, network) := network.create (.variableTable ⟨some entity.id, ∅⟩)
  let network := network.seed data [conceptSegment, "id"] (.number concept.id.number.toFloat) true
  let network := network.seed data [conceptSegment, "name"] (.text concept.name) true
  let network := match entity.value.toDatum? with
    | some value => network.seed data [valueSegment] value true
    | none => network
  let network := match symbolSeed? entity concept with
    | some (markup, known) =>
      network.seed data [symbolSegment, Markup.Part.text.name] (.text markup) known
    | none => network
  (⟨data, variableTable⟩, network)

def dataRole? (network : Network) (handle : Handle) : Option DataRole :=
  match (network.tree? handle).map Tree.role with
  | some (.data role) => some role
  | _ => none

def precedence? (network : Network) (handle : Handle) : Option Nat :=
  network.dataRole? handle >>= DataRole.precedence

/-- The concept data of an entity is watched for changes. -/
def noteChange (network : Network) (key : Address) : Network :=
  match key.path.head? == some conceptSegment, network.dataRole? key.tree with
  | true, some role => network.markChanged role.entity
  | _, _ => network

/-- Writes a derived value; nothing is written at or below a known key. -/
def write (network : Network) (key : Address) (value : Datum) : Bool × Network :=
  match network.tree? key.tree with
  | none => (false, network)
  | some tree =>
    if tree.isUnderKnown key.path then (false, network)
    else
      let written := network.ensureWith key fun cell =>
        { cell.replace (some value) with locked := true }
      (true, written.noteChange key)

/-- The number that names a key, if one does. -/
def pathNumber? (path : Path) : Option Nat :=
  path.getLast? >>= fun segment => Decimal.index? segment.toList

/-- One more than the largest number that names a child, modulo the range of numbers. -/
def nextChildNumber (tree : Tree) (path : Path) : Nat :=
  ((tree.children path).filterMap pathNumber?).foldl
    (fun next number => max next ((number + 1) % Decimal.wordCount)) 0

/-- Writes a value as the next numbered child. -/
def appendChild (network : Network) (key : Address) (value : Datum) : Option Path × Network :=
  match network.tree? key.tree with
  | none => (none, network)
  | some tree =>
    let child := key.path.child (toString (nextChildNumber tree key.path))
    let (written, network) := network.write ⟨key.tree, child⟩ value
    (if written then some child else none, network)

/-- Appends a value to the list at a key. -/
def appendValue (network : Network) (key : Address) (value : Datum) : Bool × Network :=
  match network.value? key with
  | some current => network.write key (current.push value)
  | none => network.write key (.list [value])

/-- Drops the value of a key. -/
def dropValue (network : Network) (key : Address) : Network :=
  network.updateCell key fun cell => cell.replace none

/-- Erases a key that has no keys below it. -/
def eraseLeaf (handle : Handle) (network : Network) (path : Path) : Network :=
  network.updateTree handle fun tree =>
    if (tree.descendants path).isEmpty then tree.erase path else tree

/-- Drops the values at and below a key. Keys below that take part in no edge are erased, leaves
first; the others stay, with their ancestors. -/
def clearKey (network : Network) (key : Address) : Network :=
  match network.tree? key.tree with
  | none => network
  | some tree =>
    let below := (tree.subtree key.path).drop 1
    let emptied := (below.map Prod.fst).foldl
      (fun network path => network.dropValue ⟨key.tree, path⟩) (network.dropValue key)
    let removable := (below.filter fun (_, cell) => cell.isUnlinked).map Prod.fst
    (removable.mergeSort fun left right => left.length ≥ right.length).foldl
      (eraseLeaf key.tree) emptied

/-- What is bound to a variable. -/
def binding? (network : Network) (variableTable : Handle) (name : String) : Option Address :=
  match (network.tree? variableTable).map Tree.role with
  | some (.variableTable role) => role.bindings[name]?
  | _ => none

def field? (network : Network) (key : Address) : Option Field :=
  (network.cell? key).map fun cell =>
    ⟨key.path, cell.value, cell.previous, cell.locked, cell.known, cell.propagated⟩

/-- Edits a primary field and tells the value before. -/
def editField (network : Network) (entity : EntityId) (key : Address) (value : Datum) :
    Except FieldFault (Option Datum × Network) :=
  if (network.dataRole? key.tree).map DataRole.entity != some entity then
    .error (.unknownEntity entity)
  else
    let network := network.ensure key
    if ((network.cell? key).map Cell.locked).getD false then .error (.locked entity key.path)
    else
      let before := network.value? key
      let edited := network.updateCell key fun cell =>
        { cell.replace (some value) with known := true }
      .ok (before, edited.noteChange key)

mutual

/-- A number that is not finite has no place in an export. -/
def exportDatum : Datum → Json
  | .number value => if value.isFinite then .real value else .null
  | .text content => .string content
  | .list items => .array (exportItems items)

def exportItems : List Datum → List Json
  | [] => []
  | item :: rest => exportDatum item :: exportItems rest

end

/-- Exports a sub-tree; `depth` bounds the levels below. A key with children is exported as an
object of those that are not empty, its own value among them. -/
def exportTree (tree : Tree) : Nat → Path → Json
  | 0, _ => .null
  | depth + 1, path =>
    let own := (tree.cell? path >>= Cell.value).map exportDatum
    let children := tree.children path
    if children.isEmpty then own.getD .null
    else
      let start : Std.ExtTreeMap String Json := match own with
        | some own => (∅ : Std.ExtTreeMap String Json).insert ownValueSegment own
        | none => ∅
      let fields := children.foldl (fun fields child =>
        let exported := exportTree tree depth child
        match child.getLast?, exported.isNull with
        | some segment, false => fields.insert segment exported
        | _, _ => fields) start
      if fields.isEmpty then .null else .object fields.toList

/-- The sub-tree of a key as nested objects. The keys of a tree bound its depth. -/
def exportKey (network : Network) (key : Address) : Json :=
  match network.tree? key.tree with
  | none => .null
  | some tree => exportTree tree (tree.keys.size + 1) key.path

/-- The blocks of a symbol part: its own value, then its numbered children in order. -/
def partBlocks (tree : Tree) (path : Path) : List String :=
  let blocksAt (path : Path) : List String :=
    ((tree.cell? path >>= Cell.value).map Datum.blocks).getD []
  let numbered := (tree.children path).filterMap fun child =>
    (pathNumber? child).map fun number => (number, child)
  let ordered := numbered.mergeSort fun left right =>
    left.1 < right.1 || (left.1 == right.1 && (compare left.2 right.2).isLE)
  blocksAt path ++ ordered.flatMap fun (_, child) => blocksAt child

/-- The symbol that the parts of a tree make up. -/
def renderSymbol (tree : Tree) : Option String :=
  Markup.render (Markup.Part.all.map fun part =>
    (part, partBlocks tree (symbolPath.child part.name)))

/-- Sets the symbol of a data tree from its parts. -/
def aggregateSymbol (network : Network) (handle : Handle) : Network :=
  match network.tree? handle with
  | none => network
  | some tree =>
    network.updateCell ⟨handle, symbolPath⟩ fun cell =>
      { cell with value := (renderSymbol tree).map .text }

/-- The markup of a completed symbol. -/
def symbol? (network : Network) (handle : Handle) : Option String :=
  match network.cell? ⟨handle, symbolPath⟩ with
  | some cell => if cell.propagated then cell.value.map Datum.display else none
  | none => none

end Network

end ConceptLaws.Propagation
