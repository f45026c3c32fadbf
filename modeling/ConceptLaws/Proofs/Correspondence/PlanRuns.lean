import ConceptLaws.Proofs.Correspondence.BranchPlans
import ConceptLaws.Proofs.Correspondence.Planning

/-! Plans come to an end.
The recursions that plan a pair and a branch are written down once more as runs that follow links for
as long as there are any. As the links of a law run in no cycle, every plan has such a run, with the
outcome that is computed. -/

namespace ConceptLaws

/-! ## Links that are left to follow -/

/-- From a node of a law one cannot follow so many links. -/
structure Catalog.Suffices (catalog : Catalog) (law : LawId) (depth : Nat) (id : LawNodeId) :
    Prop where
  positive : 0 < depth
  short : ∀ found, catalog.law? law = some found → found.walk depth [id] = []

namespace Catalog

variable {catalog : Catalog} {law : LawId}

theorem Suffices.above {depth : Nat} {id parent : LawNodeId} {node : LawNode}
    (enough : catalog.Suffices law (depth + 1) id) (named : catalog.lawNode? law id = some node)
    (leads : parent ∈ node.parents) : catalog.Suffices law depth parent := by
  obtain ⟨found, listed, inLaw⟩ := Option.bind_eq_some_iff.1 named
  have short : found.walk depth [parent] = [] := by
    have fewer := Law.walk_above_subset depth inLaw leads
    rw [enough.short found listed] at fewer
    exact List.eq_nil_of_subset_nil fewer
  refine ⟨Nat.pos_of_ne_zero fun none_ => ?_, fun other listedToo => ?_⟩
  · rw [none_] at short
    exact absurd short (List.cons_ne_nil parent [])
  · obtain rfl := Option.some.inj (listed.symm.trans listedToo)
    exact short

/-- The depth of plans is enough for every node. -/
theorem Valid.suffices (valid : catalog.Valid) (map : Correspondence) (id : LawNodeId) :
    catalog.Suffices map.law (map.planDepth catalog) id := by
  refine ⟨Nat.succ_pos _, fun law listed => ?_⟩
  have depth : map.planDepth catalog = law.nodes.length + 1 := by
    simp [Correspondence.planDepth, listed]
  rw [depth]
  obtain ⟨member, -⟩ := law?_eq_some listed
  cases found : law.node? id with
  | some node =>
    obtain ⟨inLaw, rfl⟩ := Law.node?_eq_some found
    exact (valid.distinct.valid law member).acyclic node inLaw
  | none =>
    have rootless : law.parentsOf [id] = [] := by simp [Law.parentsOf, found]
    rw [Law.walk, rootless, Law.walk_nil]

end Catalog

namespace Correspondence

variable {map : Correspondence} {relation : Relation} {catalog : Catalog}

/-! ## Pairs -/

mutual

/-- A pair is planned with all it needs, or not. -/
inductive PairRun (map : Correspondence) (relation : Relation) (catalog : Catalog) :
    PairPlan → Pair → Option PairPlan → Prop
  | conflict {plan : PairPlan} {pair : Pair} (fits : map.admits plan pair = .conflict) :
      PairRun map relation catalog plan pair none
  | present {plan : PairPlan} {pair : Pair} (fits : map.admits plan pair = .present) :
      PairRun map relation catalog plan pair (some plan)
  | unfit {plan : PairPlan} {pair : Pair} (fits : map.admits plan pair = .free)
      (unfit : ∀ entity node, relation.get? pair.entity = some entity →
        catalog.lawNode? map.law pair.node = some node → node.accepts catalog entity = false) :
      PairRun map relation catalog plan pair none
  | fit {plan : PairPlan} {pair : Pair} {entity : Entity} {node : LawNode}
      {outcome : Option PairPlan} (fits : map.admits plan pair = .free)
      (found : relation.get? pair.entity = some entity)
      (named : catalog.lawNode? map.law pair.node = some node)
      (accepted : node.accepts catalog entity = true)
      (turned : TurnedRun map relation catalog entity node (plan ++ [pair])
        (catalog.orientations entity.concept) outcome) :
      PairRun map relation catalog plan pair outcome

/-- The parents are planned in the first orientation in which that is possible. -/
inductive TurnedRun (map : Correspondence) (relation : Relation) (catalog : Catalog) :
    Entity → LawNode → PairPlan → List Bool → Option PairPlan → Prop
  | nil {entity : Entity} {node : LawNode} {plan : PairPlan} :
      TurnedRun map relation catalog entity node plan [] none
  | found {entity : Entity} {node : LawNode} {plan later : PairPlan} {swapped : Bool}
      {rest : List Bool}
      (parents : ParentsRun map relation catalog entity node swapped plan Side.both (some later)) :
      TurnedRun map relation catalog entity node plan (swapped :: rest) (some later)
  | next {entity : Entity} {node : LawNode} {plan : PairPlan} {swapped : Bool} {rest : List Bool}
      {outcome : Option PairPlan}
      (parents : ParentsRun map relation catalog entity node swapped plan Side.both none)
      (onward : TurnedRun map relation catalog entity node plan rest outcome) :
      TurnedRun map relation catalog entity node plan (swapped :: rest) outcome

/-- The parents are planned side by side. -/
inductive ParentsRun (map : Correspondence) (relation : Relation) (catalog : Catalog) :
    Entity → LawNode → Bool → PairPlan → List Side → Option PairPlan → Prop
  | nil {entity : Entity} {node : LawNode} {swapped : Bool} {plan : PairPlan} :
      ParentsRun map relation catalog entity node swapped plan [] (some plan)
  | rootless {entity : Entity} {node : LawNode} {swapped : Bool} {plan : PairPlan} {side : Side}
      {rest : List Side} {outcome : Option PairPlan} (rootless : node.parent side = none)
      (onward : ParentsRun map relation catalog entity node swapped plan rest outcome) :
      ParentsRun map relation catalog entity node swapped plan (side :: rest) outcome
  | missing {entity : Entity} {node : LawNode} {swapped : Bool} {plan : PairPlan} {side : Side}
      {rest : List Side} {parentNode : LawNodeId} (leads : node.parent side = some parentNode)
      (missing : entity.parent (side.oriented swapped) = none) :
      ParentsRun map relation catalog entity node swapped plan (side :: rest) none
  | fails {entity : Entity} {node : LawNode} {swapped : Bool} {plan : PairPlan} {side : Side}
      {rest : List Side} {parentNode : LawNodeId} {parent : EntityId}
      (leads : node.parent side = some parentNode)
      (above : entity.parent (side.oriented swapped) = some parent)
      (fails : PairRun map relation catalog plan ⟨parent, parentNode⟩ none) :
      ParentsRun map relation catalog entity node swapped plan (side :: rest) none
  | next {entity : Entity} {node : LawNode} {swapped : Bool} {plan middle : PairPlan} {side : Side}
      {rest : List Side} {parentNode : LawNodeId} {parent : EntityId} {outcome : Option PairPlan}
      (leads : node.parent side = some parentNode)
      (above : entity.parent (side.oriented swapped) = some parent)
      (planned : PairRun map relation catalog plan ⟨parent, parentNode⟩ (some middle))
      (onward : ParentsRun map relation catalog entity node swapped middle rest outcome) :
      ParentsRun map relation catalog entity node swapped plan (side :: rest) outcome

end

theorem parentsRun_foldlM {planPair : PairPlan → Pair → Option PairPlan} {entity : Entity}
    {node : LawNode} {swapped : Bool}
    (runs : ∀ side parentNode, node.parent side = some parentNode → ∀ plan parent,
      PairRun map relation catalog plan ⟨parent, parentNode⟩ (planPair plan ⟨parent, parentNode⟩))
    (sides : List Side) : ∀ plan, ParentsRun map relation catalog entity node swapped plan sides
      (sides.foldlM (planSide planPair entity node swapped) plan) := by
  induction sides with
  | nil => exact fun _ => .nil
  | cons side rest ih =>
    intro plan
    rw [List.foldlM_cons]
    unfold planSide
    cases leads : node.parent side with
    | none => exact .rootless leads (ih plan)
    | some parentNode =>
      cases above : entity.parent (side.oriented swapped) with
      | none => exact .missing leads above
      | some parent =>
        have run := runs side parentNode leads plan parent
        dsimp only
        cases planned : planPair plan ⟨parent, parentNode⟩ with
        | none =>
          rw [planned] at run
          exact .fails leads above run
        | some middle =>
          rw [planned] at run
          exact .next leads above run (ih middle)

theorem turnedRun_findSome {planPair : PairPlan → Pair → Option PairPlan} {entity : Entity}
    {node : LawNode} {plan : PairPlan}
    (runs : ∀ swapped, ParentsRun map relation catalog entity node swapped plan Side.both
      (planParents planPair entity node swapped plan)) (orientations : List Bool) :
    TurnedRun map relation catalog entity node plan orientations
      (orientations.findSome? fun swapped => planParents planPair entity node swapped plan) := by
  induction orientations with
  | nil => exact .nil
  | cons swapped rest ih =>
    have run := runs swapped
    rw [List.findSome?_cons]
    cases planned : planParents planPair entity node swapped plan with
    | none =>
      rw [planned] at run
      exact .next run ih
    | some later =>
      rw [planned] at run
      exact .found run

/-- By induction on the links that are left. -/
theorem pairRun_planPair (depth : Nat) : ∀ {pair : Pair}, catalog.Suffices map.law depth pair.node →
    ∀ plan, PairRun map relation catalog plan pair (map.planPair relation catalog depth plan pair) := by
  induction depth with
  | zero => exact fun enough => absurd enough.positive (Nat.lt_irrefl 0)
  | succ depth ih =>
    intro pair enough plan
    unfold planPair
    cases fits : map.admits plan pair with
    | conflict => exact .conflict fits
    | present => exact .present fits
    | free =>
      dsimp only
      cases found : relation.get? pair.entity with
      | none => exact .unfit fits fun entity _ present => by simp [found] at present
      | some entity =>
        cases named : catalog.lawNode? map.law pair.node with
        | none => exact .unfit fits fun _ node _ known => by simp [named] at known
        | some node =>
          dsimp only
          split
          · rename_i accepted
            refine .fit fits found named accepted (turnedRun_findSome (fun swapped => ?_) _)
            rw [planParents_eq]
            refine parentsRun_foldlM (fun side parentNode leads plan parent => ?_) Side.both _
            exact ih (enough.above named (LawNode.mem_parents.2 ⟨side, leads⟩)) plan
          · rename_i refused
            refine .unfit fits fun other otherNode present known => ?_
            obtain rfl := Option.some.inj (found.symm.trans present)
            obtain rfl := Option.some.inj (named.symm.trans known)
            exact Bool.eq_false_iff.2 refused

/-- Every pair is planned by a run. -/
theorem pairRun_plan? (valid : catalog.Valid) (map : Correspondence) (relation : Relation)
    (pair : Pair) : PairRun map relation catalog [] pair (map.plan? relation catalog pair) :=
  pairRun_planPair _ (valid.suffices map pair.node) []

/-! ## Branches -/

mutual

/-- A node of a branch is planned with the parents that are not there yet, or not. -/
inductive NodeRun (map : Correspondence) (relation : Relation) (catalog : Catalog) :
    BranchPlan → LawNodeId → Option (BranchSlot × BranchPlan) → Prop
  | planned {plan : BranchPlan} {id : LawNodeId} {slot : BranchSlot}
      (known : plan.slots[id]? = some slot) : NodeRun map relation catalog plan id (some (slot, plan))
  | mapped {plan : BranchPlan} {id : LawNodeId} {entity : EntityId} (new : plan.slots[id]? = none)
      (known : map.entityOf[id]? = some entity) :
      NodeRun map relation catalog plan id ((slotOf? relation entity).map fun slot => (slot, plan))
  | owned {plan : BranchPlan} {id : LawNodeId} {formula : Formula} (new : plan.slots[id]? = none)
      (unmapped : map.entityOf[id]? = none) (known : map.formulas[id]? = some formula) :
      NodeRun map relation catalog plan id
        ((slotOf? relation formula.owner).map fun slot => (slot, plan))
  | unknown {plan : BranchPlan} {id : LawNodeId} (new : plan.slots[id]? = none)
      (unmapped : map.entityOf[id]? = none) (unowned : map.formulas[id]? = none)
      (unknown : catalog.lawNode? map.law id = none) : NodeRun map relation catalog plan id none
  | headless {plan : BranchPlan} {id : LawNodeId} {node : LawNode} (new : plan.slots[id]? = none)
      (unmapped : map.entityOf[id]? = none) (unowned : map.formulas[id]? = none)
      (named : catalog.lawNode? map.law id = some node)
      (fails : ParentRun map relation catalog plan node.head none) :
      NodeRun map relation catalog plan id none
  | pointless {plan above : BranchPlan} {id : LawNodeId} {node : LawNode} {head : Option BranchSlot}
      (new : plan.slots[id]? = none) (unmapped : map.entityOf[id]? = none)
      (unowned : map.formulas[id]? = none) (named : catalog.lawNode? map.law id = some node)
      (headed : ParentRun map relation catalog plan node.head (some (head, above)))
      (fails : ParentRun map relation catalog above node.reference none) :
      NodeRun map relation catalog plan id none
  | added {plan above before : BranchPlan} {id : LawNodeId} {node : LawNode}
      {head reference : Option BranchSlot} (new : plan.slots[id]? = none)
      (unmapped : map.entityOf[id]? = none) (unowned : map.formulas[id]? = none)
      (named : catalog.lawNode? map.law id = some node)
      (headed : ParentRun map relation catalog plan node.head (some (head, above)))
      (referred : ParentRun map relation catalog above node.reference (some (reference, before))) :
      NodeRun map relation catalog plan id (addNode? relation before node head reference)

/-- The parent on a side is planned, if there is one. -/
inductive ParentRun (map : Correspondence) (relation : Relation) (catalog : Catalog) :
    BranchPlan → Option LawNodeId → Option (Option BranchSlot × BranchPlan) → Prop
  | root {plan : BranchPlan} : ParentRun map relation catalog plan none (some (none, plan))
  | fails {plan : BranchPlan} {id : LawNodeId} (fails : NodeRun map relation catalog plan id none) :
      ParentRun map relation catalog plan (some id) none
  | slot {plan later : BranchPlan} {id : LawNodeId} {slot : BranchSlot}
      (planned : NodeRun map relation catalog plan id (some (slot, later))) :
      ParentRun map relation catalog plan (some id) (some (some slot, later))

end

theorem parentRun_planParent? {planNode : BranchPlan → LawNodeId → Option (BranchSlot × BranchPlan)}
    {plan : BranchPlan} {parent : Option LawNodeId}
    (runs : ∀ id ∈ parent, NodeRun map relation catalog plan id (planNode plan id)) :
    ParentRun map relation catalog plan parent (planParent? planNode plan parent) := by
  cases parent with
  | none => exact .root
  | some id =>
    have run := runs id rfl
    unfold planParent?
    dsimp only
    cases planned : planNode plan id with
    | none =>
      rw [planned] at run
      exact .fails run
    | some result =>
      rw [planned] at run
      exact .slot run

theorem nodeRun_planNode (depth : Nat) : ∀ {id : LawNodeId}, catalog.Suffices map.law depth id →
    ∀ plan, NodeRun map relation catalog plan id (map.planNode relation catalog depth plan id) := by
  induction depth with
  | zero => exact fun enough => absurd enough.positive (Nat.lt_irrefl 0)
  | succ depth ih =>
    intro id enough plan
    unfold planNode
    split
    · exact .planned ‹_›
    · exact .mapped ‹_› ‹_›
    · exact .owned ‹_› ‹_› ‹_›
    · rename_i new unmapped unowned
      cases named : catalog.lawNode? map.law id with
      | none => exact .unknown new unmapped unowned named
      | some node =>
        have parents (side : Side) (plan : BranchPlan) : ParentRun map relation catalog plan
            (node.parent side)
            (planParent? (map.planNode relation catalog depth) plan (node.parent side)) := by
          refine parentRun_planParent? fun parent leads => ih (enough.above named ?_) plan
          exact LawNode.mem_parents.2 ⟨side, leads⟩
        have headed : ParentRun map relation catalog plan node.head
            (planParent? (map.planNode relation catalog depth) plan node.head) := parents .head plan
        simp only [Option.bind_eq_bind, Option.bind_some]
        cases head : planParent? (map.planNode relation catalog depth) plan node.head with
        | none =>
          rw [head] at headed
          exact .headless new unmapped unowned named headed
        | some result =>
          obtain ⟨slot, above⟩ := result
          rw [head] at headed
          have referred : ParentRun map relation catalog above node.reference
              (planParent? (map.planNode relation catalog depth) above node.reference) :=
            parents .reference above
          simp only [Option.bind_some]
          cases reference : planParent? (map.planNode relation catalog depth) above node.reference with
          | none =>
            rw [reference] at referred
            exact .pointless new unmapped unowned named headed referred
          | some result =>
            rw [reference] at referred
            exact .added new unmapped unowned named headed referred

/-- Every branch is planned by a run. -/
theorem nodeRun_planBranch? (valid : catalog.Valid) (map : Correspondence) (relation : Relation)
    (id : LawNodeId) :
    NodeRun map relation catalog .empty id (map.planBranch? relation catalog id) :=
  nodeRun_planNode _ (valid.suffices map id) .empty

end Correspondence

end ConceptLaws
