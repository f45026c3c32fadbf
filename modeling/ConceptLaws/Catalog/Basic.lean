import ConceptLaws.Catalog.Consistency
import ConceptLaws.Cbor
import ConceptLaws.Json.Reader

/-! Catalogs: definitions that passed all checks, with the lineages of their concepts and the
fingerprint of their content. -/

namespace ConceptLaws

def Concept.toDocument (concept : Concept) : Document :=
  .record [(.named "id", .natural concept.id.toNat),
    (.named "name", .text concept.name),
    (.named "parents", .list (concept.parents.map fun id => .natural id.toNat)),
    (.named "commands", .record (concept.commands.toList.map fun (key, sources) =>
      (.named key, .list (sources.map .text)))),
    (.named "symbol", (concept.symbol.map Document.text).getD .null),
    (.named "symmetric", .bool concept.symmetric)]

def LawNode.toDocument (node : LawNode) : Document :=
  let link (target : Option LawNodeId) : Document :=
    (target.map fun id => Document.natural id.toNat).getD .null
  .record [(.named "id", .natural node.id.toNat),
    (.named "concept", .natural node.concept.toNat),
    (.named "head", link node.head),
    (.named "reference", link node.reference),
    (.named "value", .text node.value.display),
    (.named "name", (node.name.map Document.text).getD .null),
    (.named "formula", (node.formula.map Document.text).getD .null)]

def Law.toDocument (law : Law) : Document :=
  let ids (list : List LawNodeId) : Document := .list (list.map fun id => .natural id.toNat)
  .record [(.named "id", .natural law.id.toNat),
    (.named "name", .text law.name),
    (.named "nodes", .list (law.nodes.map LawNode.toDocument)),
    (.named "predicate_sets", .list (law.predicateSets.map fun set => ids set.toList)),
    (.named "deep_nodes", ids law.deepNodes)]

def Definition.toDocument (definition : Definition) : Document :=
  .record [(.named "concepts", .list (definition.concepts.map Concept.toDocument)),
    (.named "laws", .list (definition.laws.map Law.toDocument))]

def Definition.toCbor (definition : Definition) : List UInt8 := Cbor.write definition.toDocument

structure Catalog where
  definition : Definition
  lineages : Std.ExtTreeMap ConceptId (List ConceptId)
  fingerprint : Fingerprint

namespace Catalog

/-- Checks a definition: concepts, inheritance, then laws. -/
def ofDefinition (definition : Definition) : Except CatalogFault Catalog := do
  definition.checkConcepts
  let lineages ← definition.lineages
  definition.checkLaws [] [] definition.laws
  .ok ⟨definition, lineages,
    Fingerprint.ofContent Fingerprint.catalogDomain definition.toCbor⟩

def ofDocument (document : Option Document) : Except CatalogFault Catalog :=
  match document >>= Definition.ofDocument? with
  | some definition => ofDefinition definition
  | none => .error .undecodable

def ofJsonText (source : String) : Except CatalogFault Catalog :=
  ofDocument ((Json.parse? source).map Document.ofJson)

def ofCbor (bytes : List UInt8) : Except CatalogFault Catalog := ofDocument (Cbor.read? bytes)

def toCbor (catalog : Catalog) : List UInt8 := catalog.definition.toCbor

def concepts (catalog : Catalog) : List Concept := catalog.definition.concepts

def laws (catalog : Catalog) : List Law := catalog.definition.laws

def concept? (catalog : Catalog) (id : ConceptId) : Option Concept :=
  catalog.definition.concept? id

/-- The first concept of a name. -/
def conceptNamed? (catalog : Catalog) (name : String) : Option Concept :=
  catalog.concepts.find? (·.name == name)

/-- The ancestors of a concept and itself, itself last; nothing for an unknown one. -/
def lineage (catalog : Catalog) (id : ConceptId) : List ConceptId :=
  catalog.lineages.getD id []

/-- Whether `concept` is `ancestor` or inherits from it. -/
def instanceOf (catalog : Catalog) (concept ancestor : ConceptId) : Bool :=
  (catalog.lineage concept).contains ancestor

def instanceOfNamed (catalog : Catalog) (concept : ConceptId) (name : String) : Bool :=
  ((catalog.conceptNamed? name).map fun ancestor => catalog.instanceOf concept ancestor.id).getD
    false

/-- The concepts of a lineage. -/
def lineageConcepts (catalog : Catalog) (id : ConceptId) : List Concept :=
  (catalog.lineage id).filterMap catalog.concept?

/-- The commands of a concept for an attribute, inherited ones first. -/
def commandsFor (catalog : Catalog) (id : ConceptId) (name : String) : List String :=
  (catalog.lineageConcepts id).flatMap fun concept => concept.commands.getD name []

/-- The place of the first group that names the concept or one of its ancestors. -/
def precedence? (catalog : Catalog) (id : ConceptId) (groups : List (List String)) : Option Nat :=
  let names := (catalog.lineageConcepts id).map Concept.name
  groups.findIdx? fun group => group.any names.contains

def law? (catalog : Catalog) (id : LawId) : Option Law := catalog.definition.law? id

def lawNode? (catalog : Catalog) (law : LawId) (node : LawNodeId) : Option LawNode :=
  catalog.law? law >>= fun law => law.node? node

def isPredicate (catalog : Catalog) (law : LawId) (node : LawNodeId) : Bool :=
  ((catalog.law? law).map fun law => law.isPredicate node).getD false

def deepPredicates (catalog : Catalog) (law : LawId) : List LawNodeId :=
  ((catalog.law? law).map Law.deepPredicates).getD []

def conclusions (catalog : Catalog) (law : LawId) : List LawNodeId :=
  ((catalog.law? law).map Law.conclusions).getD []

end Catalog

end ConceptLaws
