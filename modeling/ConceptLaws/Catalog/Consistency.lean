import ConceptLaws.Catalog.Fault

/-! Lineages of concepts: a concept with all its ancestors, each after its own parents. -/

namespace ConceptLaws.Definition

/-- Appends a concept and the ancestors that `order` lacks. `below` are the concepts on the way
here; a concept met again on the way closes a cycle. As these are distinct, the number of concepts
bounds the depth. -/
def appendLineage (definition : Definition) :
    Nat → List ConceptId → List ConceptId → ConceptId → Except CatalogFault (List ConceptId)
  | 0, _, _, id => .error (.conceptCycle id)
  | depth + 1, below, order, id =>
    if order.contains id then .ok order
    else if below.contains id then .error (.conceptCycle id)
    else
      let parents := ((definition.concept? id).map Concept.parents).getD []
      match parents.foldlM (appendLineage definition depth (id :: below)) order with
      | .error fault => .error fault
      | .ok order => .ok (order ++ [id])

/-- The ancestors of a concept and itself, itself last. -/
def lineage (definition : Definition) (id : ConceptId) : Except CatalogFault (List ConceptId) :=
  definition.appendLineage (definition.concepts.length + 1) [] [] id

end ConceptLaws.Definition

/-! The checks that a definition has to pass, in the order in which their faults are told. -/

namespace ConceptLaws

/-- The first value that an earlier one equals. -/
def firstRepeated? {α : Type} [BEq α] (seen : List α) : List α → Option α
  | [] => none
  | value :: rest => if seen.contains value then some value else firstRepeated? (value :: seen) rest

namespace Law

def isNode (law : Law) (id : LawNodeId) : Bool := (law.node? id).isSome

/-- Concept, links and head of a node. -/
def checkNode (definition : Definition) (law : Law) (node : LawNode) : Except CatalogFault Unit :=
  if (definition.concept? node.concept).isNone then
    .error (.unknownConcept law.name node.id node.concept)
  else match node.parents.find? fun target => !law.isNode target with
    | some target => .error (.danglingLink law.name node.id target)
    | none =>
      if node.isData && node.head.isNone then .error (.dataNodeWithoutHead law.name node.id)
      else .ok ()

/-- The nodes that the given ones link to, without repetition. -/
def parentsOf (law : Law) (ids : List LawNodeId) : List LawNodeId :=
  ((ids.filterMap law.node?).flatMap LawNode.parents).eraseDups

/-- The nodes reached by walks of exactly `steps` links. -/
def walk (law : Law) : Nat → List LawNodeId → List LawNodeId
  | 0, ids => ids
  | steps + 1, ids => law.walk steps (law.parentsOf ids)

/-- A walk with more links than there are nodes runs in a cycle. -/
def reachesCycle (law : Law) (id : LawNodeId) : Bool :=
  !(law.walk (law.nodes.length + 1) [id]).isEmpty

def checkCycles (law : Law) : Except CatalogFault Unit :=
  match law.nodes.find? fun node => law.reachesCycle node.id with
  | some node => .error (.lawCycle law.name node.id)
  | none => .ok ()

/-- A member of a predicate set is a node without formula whose parents are members. -/
def checkPredicate (law : Law) (index : Nat) (set : Std.ExtTreeSet LawNodeId) (id : LawNodeId) :
    Except CatalogFault Unit :=
  match law.node? id with
  | none => .error (.unknownPredicate law.name index id)
  | some node =>
    if node.isData then .error (.dataNodePredicate law.name id)
    else match node.parents.find? fun parent => !set.contains parent with
      | some parent => .error (.openPredicateSet law.name index id parent)
      | none => .ok ()

def checkPredicateSet (law : Law) (index : Nat) (set : Std.ExtTreeSet LawNodeId) :
    Except CatalogFault Unit :=
  if set.isEmpty then .error (.emptyPredicateSet law.name index)
  else do
    set.toList.forM (law.checkPredicate index set)
    match (law.predicateSets.take index).findIdx? (· == set) with
    | some first => .error (.duplicatePredicateSet law.name first index)
    | none => .ok ()

def checkDeepNodes (law : Law) : Except CatalogFault Unit :=
  match law.deepNodes.find? fun id => !law.isNode id with
  | some id => .error (.unknownDeepNode law.name id)
  | none => .ok ()

def check (definition : Definition) (law : Law) : Except CatalogFault Unit := do
  law.nodes.forM (law.checkNode definition)
  law.checkCycles
  if law.predicateSets.isEmpty then .error (.noPredicateSets law.name)
  else
    law.predicateSets.zipIdx.forM fun (set, index) => law.checkPredicateSet index set
    law.checkDeepNodes

end Law

namespace Definition

def checkParents (definition : Definition) (concept : Concept) : Except CatalogFault Unit :=
  match concept.parents.find? fun parent => (definition.concept? parent).isNone with
  | some parent => .error (.unknownParentConcept concept.id parent)
  | none => .ok ()

def checkConcepts (definition : Definition) : Except CatalogFault Unit := do
  match firstRepeated? [] (definition.concepts.map Concept.id) with
  | some id => .error (.duplicateConcept id)
  | none => definition.concepts.forM definition.checkParents

/-- Laws one after the other; `laws` and `nodes` are the identifiers already taken. -/
def checkLaws (definition : Definition) (laws : List LawId) (nodes : List LawNodeId) :
    List Law → Except CatalogFault Unit
  | [] => .ok ()
  | law :: rest =>
    if laws.contains law.id then .error (.duplicateLaw law.id)
    else match firstRepeated? nodes (law.nodes.map LawNode.id) with
      | some id => .error (.duplicateNode id)
      | none =>
        match law.check definition with
        | .error fault => .error fault
        | .ok () =>
          checkLaws definition (law.id :: laws) (law.nodes.map LawNode.id ++ nodes) rest

/-- The lineages of all concepts. -/
def lineages (definition : Definition) :
    Except CatalogFault (Std.ExtTreeMap ConceptId (List ConceptId)) :=
  definition.concepts.foldlM (fun table concept =>
    (definition.lineage concept.id).map (table.insert concept.id)) ∅

end Definition

end ConceptLaws
