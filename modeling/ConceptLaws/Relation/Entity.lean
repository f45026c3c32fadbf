import ConceptLaws.Catalog.Definition

/-! Entities and the records they are made from. -/

namespace ConceptLaws

structure EntityRecord where
  id : EntityId
  concept : ConceptId
  head : Option EntityId
  reference : Option EntityId
  value : Payload
  name : Option String

/-- Where an entity comes from. -/
structure Provenance where
  /-- Made by a satisfied law. -/
  appended : Bool
  /-- Made by a law and not accepted yet. -/
  tentative : Bool
  /-- The correspondences whose conclusions made or reused the entity. -/
  fromMaps : Std.ExtTreeSet MapId
deriving DecidableEq

def Provenance.none : Provenance := ⟨false, false, ∅⟩

structure Entity where
  id : EntityId
  concept : ConceptId
  head : Option EntityId
  reference : Option EntityId
  value : Payload
  name : Option String
  /-- Whether the entity is accepted and no accepted entity links to it, as last computed. -/
  deep : Bool
  provenance : Provenance

def EntityRecord.ofDocument? (document : Document) : Option EntityRecord := do
  let fields ← document.fields? ["id", "concept", "head", "reference", "value", "name"]
  some {
    id := ← fields.required? "id" Document.identifier?
    concept := ← fields.required? "concept" Document.identifier?
    head := ← fields.default? "head" (Document.optional? Document.identifier?) none
    reference := ← fields.default? "reference" (Document.optional? Document.identifier?) none
    value := ← fields.default? "value" Document.payload? Payload.empty
    name := ← fields.default? "name" (Document.optional? Document.text?) none }

namespace Entity

def ofRecord (record : EntityRecord) : Entity where
  id := record.id
  concept := record.concept
  head := record.head
  reference := record.reference
  value := record.value
  name := record.name
  deep := false
  provenance := .none

def toRecord (entity : Entity) : EntityRecord where
  id := entity.id
  concept := entity.concept
  head := entity.head
  reference := entity.reference
  value := entity.value
  name := entity.name

def parent (entity : Entity) : Side → Option EntityId
  | .head => entity.head
  | .reference => entity.reference

/-- The entities that an entity links to, the head first. -/
def parents (entity : Entity) : List EntityId := entity.head.toList ++ entity.reference.toList

def isTentative (entity : Entity) : Bool := entity.provenance.tentative

/-- Takes away the links to an entity. -/
def unlink (entity : Entity) (target : EntityId) : Entity :=
  { entity with
    head := if entity.head = some target then none else entity.head
    reference := if entity.reference = some target then none else entity.reference }

end Entity

/-- Fields in a fixed order, nothing written as null. -/
def EntityRecord.toJson (record : EntityRecord) : Json :=
  let link (target : Option EntityId) : Json :=
    (target.map fun id => Json.natural id.toNat).getD .null
  .object [("id", .natural record.id.toNat),
    ("concept", .natural record.concept.toNat),
    ("head", link record.head),
    ("reference", link record.reference),
    ("value", .string record.value.display),
    ("name", .optional record.name)]

end ConceptLaws
