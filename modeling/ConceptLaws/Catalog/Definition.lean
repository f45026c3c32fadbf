import ConceptLaws.Document
import Std.Data.ExtTreeSet

/-! Concepts and laws as they are defined.
A law is a small forest of nodes. Its predicate sets are alternatives: once all nodes of one are
matched by entities, the other nodes are concluded. A node with a formula is a data node; its
formula is a command for the entity of its head. -/

namespace ConceptLaws

/-- The two links of an entity or a law node. -/
inductive Side where
  | head | reference
deriving Repr, DecidableEq

def Side.both : List Side := [head, reference]

def Side.other : Side → Side
  | head => reference
  | reference => head

structure Concept where
  id : ConceptId
  name : String
  parents : List ConceptId
  /-- Commands by attribute. -/
  commands : Std.ExtTreeMap String (List String)
  /-- Markup of an entity that has neither name nor number. -/
  symbol : Option String
  /-- Head and reference of an entity may be exchanged. -/
  symmetric : Bool

structure LawNode where
  id : LawNodeId
  concept : ConceptId
  head : Option LawNodeId
  reference : Option LawNodeId
  /-- What the value of a matching entity has to satisfy. -/
  value : Payload
  name : Option String
  formula : Option String

namespace LawNode

def parent (node : LawNode) : Side → Option LawNodeId
  | .head => node.head
  | .reference => node.reference

/-- The nodes that a node links to, the head first. -/
def parents (node : LawNode) : List LawNodeId := node.head.toList ++ node.reference.toList

def isData (node : LawNode) : Bool := node.formula.isSome

end LawNode

structure Law where
  id : LawId
  name : String
  nodes : List LawNode
  predicateSets : List (Std.ExtTreeSet LawNodeId)
  /-- Where conclusions are anchored; none given means every leaf outside the predicates. -/
  deepNodes : List LawNodeId

namespace Law

def node? (law : Law) (id : LawNodeId) : Option LawNode := law.nodes.find? (·.id == id)

/-- The nodes of all predicate sets, in order. -/
def predicates (law : Law) : Std.ExtTreeSet LawNodeId :=
  law.predicateSets.foldl (fun all set => all.insertMany set.toList) ∅

def isPredicate (law : Law) (id : LawNodeId) : Bool :=
  law.predicateSets.any (·.contains id)

def children (law : Law) (id : LawNodeId) : List LawNode :=
  law.nodes.filter fun node => node.parents.contains id

/-- Predicates without a predicate below them; matching starts there. -/
def deepPredicates (law : Law) : List LawNodeId :=
  law.predicates.toList.filter fun id => !(law.children id).any fun node => law.isPredicate node.id

/-- The anchors of what the law concludes. -/
def conclusions (law : Law) : List LawNodeId :=
  if law.deepNodes.isEmpty then
    (law.nodes.map LawNode.id).filter fun id =>
      !law.isPredicate id && (law.children id).isEmpty
  else law.deepNodes.filter fun id => !law.isPredicate id

end Law

/-- What a catalog is made from. -/
structure Definition where
  concepts : List Concept
  laws : List Law

namespace Definition

def empty : Definition := ⟨[], []⟩

instance : Inhabited Definition := ⟨empty⟩

def concept? (definition : Definition) (id : ConceptId) : Option Concept :=
  definition.concepts.find? (·.id == id)

def law? (definition : Definition) (id : LawId) : Option Law :=
  definition.laws.find? (·.id == id)

end Definition

def Concept.ofDocument? (document : Document) : Option Concept := do
  let fields ← document.fields? ["id", "name", "parents", "commands", "symbol", "symmetric"]
  some {
    id := ← fields.required? "id" Document.identifier?
    name := ← fields.required? "name" Document.text?
    parents := ← fields.default? "parents" (Document.list? Document.identifier?) []
    commands := ← fields.default? "commands"
      (Document.table? (Document.list? Document.text?)) ∅
    symbol := ← fields.default? "symbol" (Document.optional? Document.text?) none
    symmetric := ← fields.default? "symmetric" Document.bool? false }

def LawNode.ofDocument? (document : Document) : Option LawNode := do
  let fields ← document.fields?
    ["id", "concept", "head", "reference", "value", "name", "formula"]
  some {
    id := ← fields.required? "id" Document.identifier?
    concept := ← fields.required? "concept" Document.identifier?
    head := ← fields.default? "head" (Document.optional? Document.identifier?) none
    reference := ← fields.default? "reference" (Document.optional? Document.identifier?) none
    value := ← fields.default? "value" Document.payload? Payload.empty
    name := ← fields.default? "name" (Document.optional? Document.text?) none
    formula := ← fields.default? "formula" (Document.optional? Document.text?) none }

def Law.ofDocument? (document : Document) : Option Law := do
  let fields ← document.fields? ["id", "name", "nodes", "predicate_sets", "deep_nodes"]
  let sets ← fields.required? "predicate_sets"
    (Document.list? (Document.list? Document.identifier?))
  some {
    id := ← fields.required? "id" Document.identifier?
    name := ← fields.required? "name" Document.text?
    nodes := ← fields.required? "nodes" (Document.list? LawNode.ofDocument?)
    predicateSets := sets.map fun set => Std.ExtTreeSet.ofList set
    deepNodes := ← fields.default? "deep_nodes" (Document.list? Document.identifier?) [] }

def Definition.ofDocument? (document : Document) : Option Definition := do
  let fields ← document.fields? ["concepts", "laws"]
  some {
    concepts := ← fields.default? "concepts" (Document.list? Concept.ofDocument?) []
    laws := ← fields.default? "laws" (Document.list? Law.ofDocument?) [] }

end ConceptLaws
