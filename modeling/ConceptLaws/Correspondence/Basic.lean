import ConceptLaws.Relation.Basic

/-! Correspondences between entities and the nodes of a law.
A correspondence maps entities to nodes one to one. It is satisfied once its predicate nodes are one
of the predicate sets of the law. -/

namespace ConceptLaws

/-- An entity and the law node that it stands for. -/
structure Pair where
  entity : EntityId
  node : LawNodeId
deriving Repr, DecidableEq

namespace Pair

instance : Ord Pair where
  compare := compareLex (compareOn entity) (compareOn node)

instance : Std.TransOrd Pair :=
  inferInstanceAs (Std.TransCmp (compareLex (compareOn entity) (compareOn node)))

instance : Std.LawfulEqOrd Pair where
  compare_self := (inferInstance : Std.ReflCmp
    (compareLex (compareOn entity) (compareOn node))).compare_self
  eq_of_compare {left right} same := by
    obtain ⟨entities, nodes⟩ := Ordering.then_eq_eq.1 same
    have sameEntity : left.entity = right.entity := Std.compare_eq_iff_eq.1 entities
    have sameNode : left.node = right.node := Std.compare_eq_iff_eq.1 nodes
    cases left
    cases right
    simp_all

end Pair

/-- How a pair fits in with pairs that are there already. -/
inductive Admission where
  /-- Neither the entity nor the node occurs. -/
  | free
  | present
  /-- One of the two occurs with another partner. -/
  | conflict
deriving Repr, DecidableEq

/-- The law node of a formula, the entity that owns it, and the command. -/
structure Formula where
  owner : EntityId
  source : String
deriving Repr, DecidableEq

structure Correspondence where
  id : MapId
  law : LawId
  nodeOf : Std.ExtTreeMap EntityId LawNodeId
  entityOf : Std.ExtTreeMap LawNodeId EntityId
  /-- The deep predicates from which it was built. -/
  deepPredicates : Std.ExtTreeSet LawNodeId
  /-- Other correspondences that shared a pair with it when it was made. -/
  intersections : Std.ExtTreeSet MapId
  satisfied : Bool
  /-- Its conclusions are suggestions only. -/
  tentative : Bool
  /-- The entities that its conclusions led to, in order. -/
  conclusions : List EntityId
  /-- The formulas of data nodes among its conclusions. -/
  formulas : Std.ExtTreeMap LawNodeId Formula

namespace Correspondence

def empty (law : LawId) : Correspondence where
  id := ⟨0⟩
  law := law
  nodeOf := ∅
  entityOf := ∅
  deepPredicates := ∅
  intersections := ∅
  satisfied := false
  tentative := false
  conclusions := []
  formulas := ∅

/-- The pairs by entity. -/
def pairs (map : Correspondence) : List Pair :=
  map.nodeOf.toList.map fun (entity, node) => ⟨entity, node⟩

def size (map : Correspondence) : Nat := map.nodeOf.size

def isEmpty (map : Correspondence) : Bool := map.nodeOf.isEmpty

/-- Whether the two directions agree. -/
def isInjective (map : Correspondence) : Bool :=
  map.nodeOf.size == map.entityOf.size &&
    map.nodeOf.toList.all fun (entity, node) => map.entityOf[node]? == some entity

/-- Adds a pair, unless the entity or the node occurs already. -/
def record (map : Correspondence) (pair : Pair) : Correspondence :=
  match map.nodeOf[pair.entity]?, map.entityOf[pair.node]? with
  | none, none =>
    { map with
      nodeOf := map.nodeOf.insert pair.entity pair.node
      entityOf := map.entityOf.insert pair.node pair.entity }
  | _, _ => map

/-- How a pair fits in with the recorded ones. -/
def admission (map : Correspondence) (pair : Pair) : Admission :=
  match map.nodeOf[pair.entity]?, map.entityOf[pair.node]? with
  | none, none => .free
  | some node, some entity =>
    if node = pair.node && entity = pair.entity then .present else .conflict
  | _, _ => .conflict

/-- The mapped nodes that are predicates of the law. -/
def predicateNodes (map : Correspondence) (catalog : Catalog) : List LawNodeId :=
  map.entityOf.keys.filter (catalog.isPredicate map.law)

end Correspondence

/-- How nodes lie in the predicate sets of a law. -/
inductive Coverage where
  /-- Within no set. -/
  | outside
  /-- Within a set, but none is filled. -/
  | partly
  | exact
deriving Repr, DecidableEq

def Law.coverage (law : Law) (nodes : Std.ExtTreeSet LawNodeId) : Coverage :=
  let around := law.predicateSets.filter fun set => nodes.toList.all set.contains
  if around.any fun set => set.size == nodes.size then .exact
  else if around.isEmpty then .outside
  else .partly

def Catalog.coverage (catalog : Catalog) (law : LawId) (nodes : List LawNodeId) : Coverage :=
  match catalog.law? law with
  | none => .outside
  | some law => law.coverage (Std.ExtTreeSet.ofList nodes)

end ConceptLaws

/-! Planning of pairs.
To match an entity with a node, the parents of the node have to match the parents of the entity on
the same sides; for an entity of a symmetric concept they may match on the opposite sides instead.
-/

namespace ConceptLaws

/-- Pairs to be added together, in the order in which they were found. -/
abbrev PairPlan := List Pair

namespace PairPlan

/-- How a pair fits in with the planned ones: the first that shares an entity or a node with it
decides. -/
def admission (pair : Pair) : PairPlan → Admission
  | [] => .free
  | planned :: rest =>
    if planned = pair then .present
    else if planned.entity = pair.entity || planned.node = pair.node then .conflict
    else admission pair rest

end PairPlan

namespace Correspondence

/-- How a pair fits in with the recorded pairs and the planned ones. -/
def admits (map : Correspondence) (plan : PairPlan) (pair : Pair) : Admission :=
  match map.admission pair with
  | .free => PairPlan.admission pair plan
  | decided => decided

end Correspondence

/-- Whether an entity by itself satisfies a node. -/
def LawNode.accepts (node : LawNode) (catalog : Catalog) (entity : Entity) : Bool :=
  !entity.isTentative && !node.isData && catalog.instanceOf entity.concept node.concept &&
    node.value.includes entity.value

/-- The orientations in which the parents of an entity may be matched: straight, then exchanged. -/
def Catalog.orientations (catalog : Catalog) (concept : ConceptId) : List Bool :=
  if ((catalog.concept? concept).map Concept.symmetric).getD false then [false, true] else [false]

def Side.oriented (side : Side) (swapped : Bool) : Side := if swapped then side.other else side

namespace Correspondence

/-- Extends a plan by the parents of a pair, the head first; `planPair` plans each. -/
def planParents (planPair : PairPlan → Pair → Option PairPlan) (entity : Entity) (node : LawNode)
    (swapped : Bool) (plan : PairPlan) : Option PairPlan :=
  Side.both.foldlM (fun plan side =>
    match node.parent side with
    | none => some plan
    | some parentNode =>
      match entity.parent (side.oriented swapped) with
      | none => none
      | some parent => planPair plan ⟨parent, parentNode⟩) plan

/-- Extends a plan by a pair and all it needs. `depth` bounds the links that are followed; links of
a law run in no cycle, so the number of its nodes is enough. -/
def planPair (map : Correspondence) (relation : Relation) (catalog : Catalog) :
    Nat → PairPlan → Pair → Option PairPlan
  | 0, _, _ => none
  | depth + 1, plan, pair =>
    match map.admits plan pair with
    | .conflict => none
    | .present => some plan
    | .free =>
      match relation.get? pair.entity, catalog.lawNode? map.law pair.node with
      | some entity, some node =>
        if node.accepts catalog entity then
          (catalog.orientations entity.concept).findSome? fun swapped =>
            planParents (planPair map relation catalog depth) entity node swapped (plan ++ [pair])
        else none
      | _, _ => none

/-- The number of nodes of the law, and one more. -/
def planDepth (map : Correspondence) (catalog : Catalog) : Nat :=
  ((catalog.law? map.law).map fun law => law.nodes.length).getD 0 + 1

/-- The pairs needed to match an entity with a node. -/
def plan? (map : Correspondence) (relation : Relation) (catalog : Catalog) (pair : Pair) :
    Option PairPlan :=
  map.planPair relation catalog (map.planDepth catalog) [] pair

end Correspondence

end ConceptLaws
