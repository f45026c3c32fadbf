import ConceptLaws.Catalog.Basic
import ConceptLaws.Command.Reference
import ConceptLaws.Relation.Entity

/-! Relations: entities with unique identifiers whose head and reference links name entities of the
relation and never lead back to where they start. -/

namespace ConceptLaws

inductive RelationFault where
  | unknownEntity (entity : EntityId)
  | duplicateEntity (entity : EntityId)
  | unknownConcept (entity : EntityId) (concept : ConceptId)
  | unknownParent (entity parent : EntityId)
  | cycle (entity : EntityId)
deriving Repr, DecidableEq

def RelationFault.message : RelationFault → String
  | unknownEntity entity => "unknown entity " ++ entity.display
  | duplicateEntity entity => "entity " ++ entity.display ++ " already exists"
  | unknownConcept entity concept =>
    "entity " ++ entity.display ++ " uses unknown concept " ++ concept.display
  | unknownParent entity parent =>
    "entity " ++ entity.display ++ " links to unknown parent " ++ parent.display
  | cycle entity =>
    "linking entity " ++ entity.display ++ " would create a head/reference cycle"

/-- `nextId` is above every identifier used so far, until the identifiers wrap around. -/
structure Relation where
  entities : Std.ExtTreeMap EntityId Entity
  nextId : EntityId

namespace Relation

def empty : Relation := ⟨∅, ⟨0⟩⟩

instance : Inhabited Relation := ⟨empty⟩

def get? (relation : Relation) (id : EntityId) : Option Entity := relation.entities[id]?

def contains (relation : Relation) (id : EntityId) : Bool := relation.entities.contains id

def ids (relation : Relation) : List EntityId := relation.entities.keys

/-- The entities by identifier. -/
def toList (relation : Relation) : List Entity := relation.entities.values

def size (relation : Relation) : Nat := relation.entities.size

def isEmpty (relation : Relation) : Bool := relation.entities.isEmpty

/-- Changes an entity, if it is there. -/
def update (relation : Relation) (id : EntityId) (change : Entity → Entity) : Relation :=
  { relation with entities := relation.entities.modify id change }

/-- The entities that link to an entity on a side, by identifier. -/
def children (relation : Relation) (id : EntityId) (side : Side) : List EntityId :=
  (relation.toList.filter fun entity => entity.parent side == some id).map Entity.id

/-- The existing entities that an entity links to, each once. -/
def parentsOf (relation : Relation) (entity : Entity) : List EntityId :=
  (entity.parents.filter relation.contains).eraseDups

/-- Follows links from the entities of a stack, adding what is met to `seen`. Each entity is met
once, so twice their number of turns is enough. -/
def ancestorsFrom (relation : Relation) :
    Nat → List EntityId → Std.ExtTreeSet EntityId → Std.ExtTreeSet EntityId
  | 0, _, seen => seen
  | _ + 1, [], seen => seen
  | turns + 1, current :: stack, seen =>
    let parents := ((relation.get? current).map Entity.parents).getD []
    let unseen := (parents.filter fun parent => !seen.contains parent).eraseDups
    relation.ancestorsFrom turns (unseen ++ stack) (seen.insertMany unseen)

/-- Every entity reached by following links from an entity. -/
def ancestors (relation : Relation) (id : EntityId) : Std.ExtTreeSet EntityId :=
  relation.ancestorsFrom (2 * relation.size + 1) [id] ∅

/-- The number of parents of each entity that are not listed yet. -/
abbrev OpenParents := Std.ExtTreeMap EntityId Nat

/-- Counts a listed parent off its child; the child is ready when none is left. -/
def countOff (state : OpenParents × List EntityId) (child : EntityId) :
    OpenParents × List EntityId :=
  let (openParents, ready) := state
  match openParents[child]? with
  | none => state
  | some count =>
    (openParents.insert child (count - 1), if count = 1 then ready ++ [child] else ready)

/-- Lists ready entities, first come, first served; listing an entity may make its children ready.
-/
def listReady (relation : Relation) (childrenOf : EntityId → List EntityId) :
    Nat → OpenParents → List EntityId → List EntityId
  | 0, _, _ => []
  | _ + 1, _, [] => []
  | turns + 1, openParents, id :: waiting =>
    let (openParents, ready) := (childrenOf id).foldl countOff (openParents, waiting)
    id :: relation.listReady childrenOf turns openParents ready

/-- Parents before children, by identifier where both may come. Entities on or below a cycle are
left out. -/
def topological (relation : Relation) : List EntityId :=
  let parents := relation.toList.map fun entity => (entity.id, relation.parentsOf entity)
  let openParents : OpenParents :=
    parents.foldl (fun table (id, above) => table.insert id above.length) ∅
  let childTable : Std.ExtTreeMap EntityId (List EntityId) :=
    parents.foldl (fun table (id, above) =>
      above.foldl (fun table parent => table.insert parent (table.getD parent [] ++ [id])) table) ∅
  let ready := (parents.filter fun (_, above) => above.isEmpty).map Prod.fst
  relation.listReady (fun id => childTable.getD id []) relation.size openParents ready

/-- The entities that accepted entities link to. -/
def supporting (relation : Relation) : Std.ExtTreeSet EntityId :=
  (relation.toList.filter (!·.isTentative)).foldl
    (fun linked entity => linked.insertMany entity.parents) ∅

/-- An accepted entity is deep when no accepted entity links to it. -/
def recomputeDeep (relation : Relation) : Relation :=
  let linked := relation.supporting
  { relation with
    entities := relation.entities.map fun _ entity =>
      { entity with deep := !entity.isTentative && !linked.contains entity.id } }

def deepIds (relation : Relation) : List EntityId :=
  (relation.toList.filter Entity.deep).map Entity.id

/-- Raises the next identifier above a used one. -/
def reserve (relation : Relation) (id : EntityId) : Relation :=
  { relation with nextId := relation.nextId.maximum id.next }

/-- An identifier above all used ones. -/
def freshId (relation : Relation) : EntityId × Relation :=
  (relation.nextId, { relation with nextId := relation.nextId.next })

def put (relation : Relation) (entity : Entity) : Relation :=
  { relation.reserve entity.id with entities := relation.entities.insert entity.id entity }

/-- Takes records whose concepts exist and whose identifiers are new; links are not looked at. -/
def addRecord (catalog : Catalog) (relation : Relation) (record : EntityRecord) :
    Except RelationFault Relation :=
  if (catalog.concept? record.concept).isNone then
    .error (.unknownConcept record.id record.concept)
  else if relation.contains record.id then .error (.duplicateEntity record.id)
  else .ok (relation.put (Entity.ofRecord record))

def checkLinks (relation : Relation) (entity : Entity) : Except RelationFault Unit :=
  match entity.parents.find? fun parent => !relation.contains parent with
  | some parent => .error (.unknownParent entity.id parent)
  | none => .ok ()

/-- The first entity that the topological order leaves out. -/
def checkCycles (relation : Relation) : Except RelationFault Unit :=
  let order := Std.ExtTreeSet.ofList relation.topological
  match relation.ids.find? fun id => !order.contains id with
  | some id => .error (.cycle id)
  | none => .ok ()

/-- Builds a relation from records in any order. -/
def ofRecords (records : List EntityRecord) (catalog : Catalog) :
    Except RelationFault Relation := do
  let relation ← records.foldlM (addRecord catalog) empty
  relation.toList.forM relation.checkLinks
  relation.checkCycles
  .ok relation.recomputeDeep

/-- A new entity may not link to itself, nor to an entity that does not exist. -/
def checkNewLink (relation : Relation) (entity : Entity) (parent : EntityId) :
    Except RelationFault Unit :=
  if parent = entity.id then .error (.cycle entity.id)
  else if relation.contains parent then .ok ()
  else .error (.unknownParent entity.id parent)

/-- Adds an entity whose parents exist. -/
def insert (relation : Relation) (entity : Entity) (catalog : Catalog) :
    Except RelationFault Relation :=
  if relation.contains entity.id then .error (.duplicateEntity entity.id)
  else if (catalog.concept? entity.concept).isNone then
    .error (.unknownConcept entity.id entity.concept)
  else do
    entity.parents.forM (relation.checkNewLink entity)
    .ok (relation.put entity)

/-- Removes an entity; the links to it go with it. -/
def remove (relation : Relation) (id : EntityId) : Except RelationFault (Entity × Relation) :=
  match relation.get? id with
  | none => .error (.unknownEntity id)
  | some entity =>
    .ok (entity, { relation with
      entities := (relation.entities.erase id).map fun _ other => other.unlink id })

/-- A link may not lead to an entity that leads back. -/
def checkRelink (relation : Relation) (id parent : EntityId) : Except RelationFault Unit :=
  if !relation.contains parent then .error (.unknownParent id parent)
  else if parent = id || (relation.ancestors parent).contains id then .error (.cycle id)
  else .ok ()

/-- Replaces the links of an entity. -/
def setParents (relation : Relation) (id : EntityId) (head reference : Option EntityId) :
    Except RelationFault Relation :=
  if !relation.contains id then .error (.unknownEntity id)
  else do
    (head.toList ++ reference.toList).forM (relation.checkRelink id)
    .ok (relation.update id fun entity => { entity with head := head, reference := reference })

def setValue (relation : Relation) (id : EntityId) (value : Payload) :
    Except RelationFault Relation :=
  if relation.contains id then
    .ok (relation.update id fun entity => { entity with value := value })
  else .error (.unknownEntity id)

def setConcept (relation : Relation) (id : EntityId) (concept : ConceptId) (catalog : Catalog) :
    Except RelationFault Relation :=
  if (catalog.concept? concept).isNone then .error (.unknownConcept id concept)
  else if relation.contains id then
    .ok (relation.update id fun entity => { entity with concept := concept })
  else .error (.unknownEntity id)

def toRecords (relation : Relation) : List EntityRecord := relation.toList.map Entity.toRecord

/-- The fingerprint of the records, written as compact JSON by identifier. -/
def fingerprint (relation : Relation) : Fingerprint :=
  let written := (Json.array (relation.toRecords.map EntityRecord.toJson)).compact
  Fingerprint.ofContent Fingerprint.relationDomain (Fingerprint.textBytes written)

end Relation

end ConceptLaws

/-! The entities that a reference reaches from its owner. -/

namespace ConceptLaws

namespace Command

/-- The entities one hop away. -/
def Selector.reach (selector : Selector) (relation : Relation) (id : EntityId) : List EntityId :=
  match selector with
  | .current => [id]
  | .head => (relation.get? id >>= Entity.head).toList
  | .reference => (relation.get? id >>= Entity.reference).toList
  | .children => relation.children id .head

def ConceptFilter.keeps (filter : ConceptFilter) (relation : Relation) (catalog : Catalog)
    (id : EntityId) : Bool :=
  match relation.get? id with
  | some entity => catalog.instanceOfNamed entity.concept filter.concept != filter.negated
  | none => false

def Step.keeps (step : Step) (relation : Relation) (catalog : Catalog) (id : EntityId) : Bool :=
  match step.filter with
  | some filter => filter.keeps relation catalog id
  | none => true

/-- One step from all entities reached so far, without repetition. -/
def Step.reach (step : Step) (relation : Relation) (catalog : Catalog) (swapped : Bool)
    (ids : List EntityId) : List EntityId :=
  let selector := if swapped then step.selector.swapped else step.selector
  ((ids.flatMap (selector.reach relation)).filter (step.keeps relation catalog)).eraseDups

/-- The entities reached from `owner`, in order; a variable reaches none. With `swapped`, head and
reference are exchanged. -/
def Reference.reach (reference : Reference) (relation : Relation) (catalog : Catalog)
    (owner : EntityId) (swapped : Bool) : List EntityId :=
  match reference.base with
  | .named _ => []
  | .nodes steps =>
    steps.foldl (fun ids step => step.reach relation catalog swapped ids) [owner]

end Command

end ConceptLaws
