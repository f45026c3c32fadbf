import ConceptLaws.Correspondence.Basic
import ConceptLaws.Proofs.Correspondence.Basic
import ConceptLaws.Proofs.Relation.Basic

/-! Plans, and what a node needs.
A plan keeps what was planned before, and it asks for nothing but an entity and what that entity
links to: in a relation that extends another one the same pairs are planned. A node of a law needs
itself, what it links to, what that links to, and so on. A plan adds pairs for nodes that are needed
and for no others, and each pair that it adds comes with pairs for the parents on both ends. -/

namespace ConceptLaws.Correspondence

/-- Extends a plan by the parent on one side, if the node has one there. -/
def planSide (planPair : PairPlan → Pair → Option PairPlan) (entity : Entity) (node : LawNode)
    (swapped : Bool) (plan : PairPlan) (side : Side) : Option PairPlan :=
  match node.parent side with
  | none => some plan
  | some parentNode =>
    match entity.parent (side.oriented swapped) with
    | none => none
    | some parent => planPair plan ⟨parent, parentNode⟩

theorem planParents_eq (planPair : PairPlan → Pair → Option PairPlan) (entity : Entity)
    (node : LawNode) (swapped : Bool) (plan : PairPlan) :
    planParents planPair entity node swapped plan =
      Side.both.foldlM (planSide planPair entity node swapped) plan := rfl

/-- On a side the plan stays as it is, or the parents on both ends are planned. -/
theorem planSide_cases {planPair : PairPlan → Pair → Option PairPlan} {entity : Entity}
    {node : LawNode} {swapped : Bool} {plan later : PairPlan} {side : Side}
    (planned : planSide planPair entity node swapped plan side = some later) :
    (node.parent side = none ∧ later = plan) ∨
      ∃ parentNode parent, node.parent side = some parentNode ∧
        entity.parent (side.oriented swapped) = some parent ∧
        planPair plan ⟨parent, parentNode⟩ = some later := by
  unfold planSide at planned
  split at planned
  · rename_i rootless
    exact Or.inl ⟨rootless, (Option.some.inj planned).symm⟩
  · rename_i parentNode linked
    split at planned
    · simp at planned
    · rename_i parent leads
      exact Or.inr ⟨parentNode, parent, linked, leads, planned⟩

/-! ## What was planned before -/

theorem planParents_keeps (kept : PairPlan → Prop) {planPair : PairPlan → Pair → Option PairPlan}
    (keeps : ∀ plan pair later, kept plan → planPair plan pair = some later → kept later)
    {entity : Entity} {node : LawNode} {swapped : Bool} {plan later : PairPlan} (before : kept plan)
    (planned : planParents planPair entity node swapped plan = some later) : kept later := by
  rw [planParents_eq] at planned
  generalize Side.both = sides at planned
  induction sides generalizing plan with
  | nil => exact Option.some.inj planned ▸ before
  | cons side rest ih =>
    rw [List.foldlM_cons] at planned
    obtain ⟨middle, head, tail⟩ := Option.bind_eq_some_iff.1 planned
    refine ih ?_ tail
    rcases planSide_cases head with ⟨-, same⟩ | ⟨_, _, -, -, step⟩
    · exact same ▸ before
    · exact keeps plan _ middle before step

/-- A free pair is planned before its parents. -/
theorem planPair_free {map : Correspondence} {relation : Relation} {catalog : Catalog}
    {depth : Nat} {plan later : PairPlan} {pair : Pair} (free : map.admits plan pair = .free)
    (planned : map.planPair relation catalog (depth + 1) plan pair = some later) :
    ∃ entity node swapped, relation.get? pair.entity = some entity ∧
      catalog.lawNode? map.law pair.node = some node ∧
      node.accepts catalog entity = true ∧ swapped ∈ catalog.orientations entity.concept ∧
      planParents (map.planPair relation catalog depth) entity node swapped (plan ++ [pair]) =
        some later := by
  unfold planPair at planned
  simp only [free] at planned
  split at planned
  · rename_i entity node found named
    split at planned
    · obtain ⟨swapped, allowed, settled⟩ := List.exists_of_findSome?_eq_some planned
      exact ⟨entity, node, swapped, found, named, by assumption, allowed, settled⟩
    · simp at planned
  · simp at planned

/-- What pushing a free pair keeps is kept by planning. -/
theorem planPair_keeps {map : Correspondence} {relation : Relation} {catalog : Catalog}
    (kept : PairPlan → Prop)
    (push : ∀ plan pair, kept plan → map.admits plan pair = .free → kept (plan ++ [pair]))
    (depth : Nat) : ∀ {plan later : PairPlan} {pair : Pair}, kept plan →
      map.planPair relation catalog depth plan pair = some later → kept later := by
  induction depth with
  | zero =>
    intro plan later pair _ planned
    simp [planPair] at planned
  | succ depth ih =>
    intro plan later pair before planned
    cases fits : map.admits plan pair with
    | conflict => simp [planPair, fits] at planned
    | present =>
      simp only [planPair, fits] at planned
      exact Option.some.inj planned ▸ before
    | free =>
      obtain ⟨entity, node, swapped, -, -, -, -, parents⟩ := planPair_free fits planned
      exact planParents_keeps kept (fun _ _ _ => ih) (push plan pair before fits) parents

theorem isPrefix_planPair {map : Correspondence} {relation : Relation} {catalog : Catalog}
    (depth : Nat) {plan later : PairPlan} {pair : Pair}
    (planned : map.planPair relation catalog depth plan pair = some later) : plan <+: later := by
  apply planPair_keeps (plan <+: ·) _ depth (List.prefix_refl plan) planned
  intro middle next before _
  exact before.trans (List.prefix_append middle [next])

theorem isPrefix_planParents {map : Correspondence} {relation : Relation} {catalog : Catalog}
    {depth : Nat} {entity : Entity} {node : LawNode} {swapped : Bool} {plan later : PairPlan}
    (planned : planParents (map.planPair relation catalog depth) entity node swapped plan =
      some later) : plan <+: later :=
  planParents_keeps (plan <+: ·)
    (fun _ _ _ before step => before.trans (isPrefix_planPair depth step)) (List.prefix_refl plan)
    planned

/-- The plan of a pair in an empty correspondence starts with the pair. -/
theorem exists_cons_of_plan {law : LawId} {relation : Relation} {catalog : Catalog} {pair : Pair}
    {plan : PairPlan} (planned : (empty law).plan? relation catalog pair = some plan) :
    (∃ rest, plan = pair :: rest) ∧ relation.contains pair.entity = true := by
  have free : (empty law).admits [] pair = .free := by
    simp [admits, admission, empty, PairPlan.admission]
  obtain ⟨entity, node, swapped, found, -, -, -, parents⟩ := planPair_free free planned
  obtain ⟨rest, same⟩ := isPrefix_planParents parents
  exact ⟨⟨rest, same.symm⟩, Relation.contains_iff.2 ⟨entity, found⟩⟩

end ConceptLaws.Correspondence

namespace ConceptLaws

/-- Links of the law lead from a node to another one. -/
inductive Catalog.Needs (catalog : Catalog) (law : LawId) (node : LawNodeId) : LawNodeId → Prop
  | self : Needs catalog law node node
  | link {middle parent : LawNodeId} {lawNode : LawNode} (side : Side)
      (needed : Needs catalog law node middle)
      (found : catalog.lawNode? law middle = some lawNode)
      (leads : lawNode.parent side = some parent) : Needs catalog law node parent

theorem Catalog.Needs.trans {catalog : Catalog} {law : LawId} {first second third : LawNodeId}
    (earlier : catalog.Needs law first second) (later : catalog.Needs law second third) :
    catalog.Needs law first third := by
  induction later with
  | self => exact earlier
  | link side _ found leads ih => exact ih.link side found leads

theorem Catalog.Needs.above {catalog : Catalog} {law : LawId} {node parent : LawNodeId}
    {lawNode : LawNode} {side : Side} (found : catalog.lawNode? law node = some lawNode)
    (leads : lawNode.parent side = some parent) : catalog.Needs law node parent :=
  .link side .self found leads

/-- Nodes among which all links stay are all that is needed. -/
theorem Catalog.Needs.mem_of_closed {catalog : Catalog} {law : LawId} {root : LawNodeId}
    {ids : List LawNodeId} (first : root ∈ ids)
    (closed : ∀ id ∈ ids, ∀ node ∈ (catalog.lawNode? law id).toList, ∀ parent ∈ node.parents,
      parent ∈ ids) {id : LawNodeId} (needs : catalog.Needs law root id) : id ∈ ids := by
  induction needs with
  | self => exact first
  | link side _ found leads ih =>
    exact closed _ ih _ (Option.mem_toList.2 found) _ (LawNode.mem_parents.2 ⟨side, leads⟩)

namespace PairPlan

/-- No entity and no node occurs twice. -/
def Apart (plan : PairPlan) : Prop :=
  plan.Pairwise fun first second => first.entity ≠ second.entity ∧ first.node ≠ second.node

theorem admission_eq_free {pair : Pair} {plan : PairPlan} (free : admission pair plan = .free) :
    ∀ planned ∈ plan, planned.entity ≠ pair.entity ∧ planned.node ≠ pair.node := by
  induction plan with
  | nil => simp
  | cons first rest ih =>
    unfold admission at free
    split at free
    · simp at free
    · split at free
      · simp at free
      · rename_i apart
        intro planned member
        rcases List.mem_cons.1 member with rfl | later
        · simpa using apart
        · exact ih free planned later

theorem admission_eq_present {pair : Pair} {plan : PairPlan}
    (present : admission pair plan = .present) : pair ∈ plan := by
  induction plan with
  | nil => simp [admission] at present
  | cons first rest ih =>
    unfold admission at present
    split at present
    · rename_i same
      exact same ▸ List.mem_cons_self ..
    · split at present
      · simp at present
      · exact List.mem_cons_of_mem first (ih present)

end PairPlan

namespace Correspondence

/-- The pair is recorded. -/
def Has (map : Correspondence) (pair : Pair) : Prop :=
  map.nodeOf[pair.entity]? = some pair.node ∧ map.entityOf[pair.node]? = some pair.entity

/-- Neither the entity nor the node of a planned pair is recorded. -/
def Clear (map : Correspondence) (plan : PairPlan) : Prop :=
  ∀ pair ∈ plan, map.nodeOf[pair.entity]? = none ∧ map.entityOf[pair.node]? = none

theorem admission_eq_free {map : Correspondence} {pair : Pair} (free : map.admission pair = .free) :
    map.nodeOf[pair.entity]? = none ∧ map.entityOf[pair.node]? = none := by
  unfold admission at free
  split at free
  · rename_i freeEntity freeNode
    exact ⟨freeEntity, freeNode⟩
  · split at free
    · simp at free
    · simp at free
  · simp at free

theorem admission_eq_present {map : Correspondence} {pair : Pair}
    (present : map.admission pair = .present) : map.Has pair := by
  unfold admission at present
  split at present
  · simp at present
  · rename_i node entity ofEntity ofNode
    split at present
    · rename_i same
      obtain ⟨rfl, rfl⟩ : node = pair.node ∧ entity = pair.entity := by simpa using same
      exact ⟨ofEntity, ofNode⟩
    · simp at present
  · simp at present

theorem admits_eq_free {map : Correspondence} {plan : PairPlan} {pair : Pair}
    (free : map.admits plan pair = .free) :
    map.admission pair = .free ∧ PairPlan.admission pair plan = .free := by
  unfold admits at free
  cases decided : map.admission pair with
  | free =>
    rw [decided] at free
    exact ⟨rfl, free⟩
  | present => simp [decided] at free
  | conflict => simp [decided] at free

theorem admits_eq_present {map : Correspondence} {plan : PairPlan} {pair : Pair}
    (present : map.admits plan pair = .present) : pair ∈ plan ∨ map.Has pair := by
  unfold admits at present
  cases decided : map.admission pair with
  | free =>
    rw [decided] at present
    exact Or.inl (PairPlan.admission_eq_present present)
  | present => exact Or.inr (admission_eq_present decided)
  | conflict => simp [decided] at present

/-- The entity of a pair satisfies the node, and what it links to, on the sides of the node or on
the exchanged ones, is paired with what the node links to. -/
def Backed (map : Correspondence) (relation : Relation) (catalog : Catalog) (plan : PairPlan)
    (pair : Pair) : Prop :=
  ∃ entity node swapped, relation.get? pair.entity = some entity ∧
    catalog.lawNode? map.law pair.node = some node ∧ node.accepts catalog entity = true ∧
    swapped ∈ catalog.orientations entity.concept ∧
    ∀ side parentNode, node.parent side = some parentNode → ∃ parent,
      entity.parent (side.oriented swapped) = some parent ∧
      (⟨parent, parentNode⟩ ∈ plan ∨ map.Has ⟨parent, parentNode⟩)

theorem Backed.mono {map : Correspondence} {relation : Relation} {catalog : Catalog}
    {plan later : PairPlan} {pair : Pair} (backed : map.Backed relation catalog plan pair)
    (kept : plan <+: later) : map.Backed relation catalog later pair := by
  obtain ⟨entity, node, swapped, found, named, accepted, allowed, parents⟩ := backed
  refine ⟨entity, node, swapped, found, named, accepted, allowed, fun side parentNode linked => ?_⟩
  obtain ⟨parent, leads, paired⟩ := parents side parentNode linked
  exact ⟨parent, leads, paired.imp_left (kept.subset ·)⟩

/-- A plan was extended by what a node needs, and by nothing else. -/
structure Widens (map : Correspondence) (relation : Relation) (catalog : Catalog)
    (root : LawNodeId) (plan later : PairPlan) : Prop where
  kept : plan <+: later
  needed : ∀ pair ∈ later, pair ∈ plan ∨ catalog.Needs map.law root pair.node
  backed : ∀ pair ∈ later, pair ∈ plan ∨ map.Backed relation catalog later pair
  apart : plan.Apart → later.Apart
  clear : map.Clear plan → map.Clear later

variable {map : Correspondence} {relation : Relation} {catalog : Catalog}

theorem widens_refl (map : Correspondence) (relation : Relation) (catalog : Catalog)
    (root : LawNodeId) (plan : PairPlan) : map.Widens relation catalog root plan plan :=
  ⟨List.prefix_refl plan, fun _ member => Or.inl member, fun _ member => Or.inl member,
    fun apart => apart, fun clear => clear⟩

theorem Widens.trans {root : LawNodeId} {first second third : PairPlan}
    (earlier : map.Widens relation catalog root first second)
    (later : map.Widens relation catalog root second third) :
    map.Widens relation catalog root first third where
  kept := earlier.kept.trans later.kept
  needed := fun pair member => (later.needed pair member).elim (earlier.needed pair) Or.inr
  backed := by
    intro pair member
    rcases later.backed pair member with before | backed
    · exact (earlier.backed pair before).imp_right fun backed => backed.mono later.kept
    · exact Or.inr backed
  apart := fun apart => later.apart (earlier.apart apart)
  clear := fun clear => later.clear (earlier.clear clear)

theorem Widens.above {root below : LawNodeId} {plan later : PairPlan}
    (widens : map.Widens relation catalog root plan later)
    (needs : catalog.Needs map.law below root) : map.Widens relation catalog below plan later where
  kept := widens.kept
  needed := fun pair member => (widens.needed pair member).imp_right needs.trans
  backed := widens.backed
  apart := widens.apart
  clear := widens.clear

/-- The parents of a node are planned after each other. -/
theorem widens_planParents {root : LawNodeId} {planPair : PairPlan → Pair → Option PairPlan}
    {entity : Entity} {node : LawNode} {swapped : Bool}
    (plans : ∀ side parentNode, node.parent side = some parentNode → ∀ plan parent later,
      planPair plan ⟨parent, parentNode⟩ = some later →
        map.Widens relation catalog root plan later ∧
          (⟨parent, parentNode⟩ ∈ later ∨ map.Has ⟨parent, parentNode⟩))
    {plan later : PairPlan} (planned : planParents planPair entity node swapped plan = some later) :
    map.Widens relation catalog root plan later ∧
      ∀ side parentNode, node.parent side = some parentNode → ∃ parent,
        entity.parent (side.oriented swapped) = some parent ∧
        (⟨parent, parentNode⟩ ∈ later ∨ map.Has ⟨parent, parentNode⟩) := by
  have walked : ∀ (sides : List Side) (plan : PairPlan),
      sides.foldlM (planSide planPair entity node swapped) plan = some later →
      map.Widens relation catalog root plan later ∧ ∀ side ∈ sides, ∀ parentNode,
        node.parent side = some parentNode → ∃ parent,
          entity.parent (side.oriented swapped) = some parent ∧
          (⟨parent, parentNode⟩ ∈ later ∨ map.Has ⟨parent, parentNode⟩) := by
    intro sides
    induction sides with
    | nil =>
      intro plan planned
      obtain rfl := Option.some.inj planned
      exact ⟨widens_refl map relation catalog root plan, by simp⟩
    | cons first rest ih =>
      intro plan planned
      rw [List.foldlM_cons] at planned
      obtain ⟨middle, head, tail⟩ := Option.bind_eq_some_iff.1 planned
      obtain ⟨widensRest, linkedRest⟩ := ih middle tail
      rcases planSide_cases head with ⟨rootless, rfl⟩ | ⟨parentNode, parent, linked, leads, step⟩
      · refine ⟨widensRest, fun side listed parentNode linked => ?_⟩
        rcases List.mem_cons.1 listed with rfl | other
        · simp [rootless] at linked
        · exact linkedRest side other parentNode linked
      · obtain ⟨widens, paired⟩ := plans first parentNode linked plan parent middle step
        refine ⟨widens.trans widensRest, fun side listed other leadsTo => ?_⟩
        rcases List.mem_cons.1 listed with rfl | further
        · obtain rfl := Option.some.inj (linked.symm.trans leadsTo)
          exact ⟨parent, leads, paired.imp_left (widensRest.kept.subset ·)⟩
        · exact linkedRest side further other leadsTo
  obtain ⟨widens, linked⟩ := walked Side.both plan planned
  exact ⟨widens, fun side => linked side (by cases side <;> decide)⟩

/-- A planned pair is there in the end, and what was added is backed. -/
theorem widens_planPair (depth : Nat) : ∀ {plan later : PairPlan} {pair : Pair},
    map.planPair relation catalog depth plan pair = some later →
      map.Widens relation catalog pair.node plan later ∧ (pair ∈ later ∨ map.Has pair) := by
  induction depth with
  | zero =>
    intro plan later pair planned
    simp [planPair] at planned
  | succ depth ih =>
    intro plan later pair planned
    cases fits : map.admits plan pair with
    | conflict => simp [planPair, fits] at planned
    | present =>
      simp only [planPair, fits] at planned
      obtain rfl := Option.some.inj planned
      exact ⟨widens_refl map relation catalog pair.node plan, admits_eq_present fits⟩
    | free =>
      obtain ⟨entity, node, swapped, found, named, accepted, allowed, parents⟩ :=
        planPair_free fits planned
      obtain ⟨widens, linked⟩ : map.Widens relation catalog pair.node (plan ++ [pair]) later ∧ _ :=
        widens_planParents (fun side parentNode leads plan parent later step =>
          ⟨(ih step).1.above (.above named leads), (ih step).2⟩) parents
      have backed : map.Backed relation catalog later pair :=
        ⟨entity, node, swapped, found, named, accepted, allowed, linked⟩
      obtain ⟨freeMap, freePlan⟩ := admits_eq_free fits
      -- what is new is the pair itself, or was planned with the parents
      have first : ∀ planned ∈ plan ++ [pair], planned ∈ plan ∨ planned = pair := by
        intro planned listed
        exact (List.mem_append.1 listed).imp_right List.mem_singleton.1
      refine ⟨⟨(List.prefix_append plan [pair]).trans widens.kept, ?_, ?_,
        fun apart => widens.apart ?_, fun clear => widens.clear ?_⟩,
        Or.inl (widens.kept.subset (by simp))⟩
      · intro planned listed
        rcases widens.needed planned listed with before | needs
        · refine (first planned before).imp_right fun same => ?_
          rw [same]
          exact .self
        · exact Or.inr needs
      · intro planned listed
        rcases widens.backed planned listed with before | new
        · refine (first planned before).imp_right fun same => ?_
          rw [same]
          exact backed
        · exact Or.inr new
      · refine List.pairwise_append.2 ⟨apart, List.pairwise_singleton .., ?_⟩
        intro first old second new
        rw [List.mem_singleton.1 new]
        exact PairPlan.admission_eq_free freePlan first old
      · intro planned listed
        rcases first planned listed with old | same
        · exact clear planned old
        · rw [same]
          exact admission_eq_free freeMap

theorem clear_empty (law : LawId) (plan : PairPlan) : (empty law).Clear plan := by
  intro pair _
  simp [empty]

theorem not_has_empty {law : LawId} {pair : Pair} : ¬(empty law).Has pair := by
  simp [Has, empty]

/-- A plan has pairs for exactly the nodes that the first one needs. It names no entity and no node
twice, and all its pairs are backed. -/
theorem widens_plan {law : LawId} {pair : Pair} {plan : PairPlan}
    (planned : (empty law).plan? relation catalog pair = some plan) :
    plan.Apart ∧ pair ∈ plan ∧ ∀ other ∈ plan, catalog.Needs law pair.node other.node ∧
      (empty law).Backed relation catalog plan other := by
  obtain ⟨widens, first⟩ := widens_planPair _ planned
  refine ⟨widens.apart List.Pairwise.nil, first.resolve_right not_has_empty, fun other listed => ?_⟩
  exact ⟨(widens.needed other listed).resolve_left (by simp),
    (widens.backed other listed).resolve_left (by simp)⟩

/-- Pairs that are apart are all recorded where none of their entities and nodes is taken. -/
theorem entityOf_foldl_record {plan : PairPlan} {map : Correspondence} (apart : plan.Apart)
    (clear : map.Clear plan) :
    ∀ pair ∈ plan, (plan.foldl record map).entityOf[pair.node]? = some pair.entity := by
  induction plan generalizing map with
  | nil => simp
  | cons first rest ih =>
    obtain ⟨different, apartRest⟩ := List.pairwise_cons.1 apart
    obtain ⟨freeEntity, freeNode⟩ := clear first (List.mem_cons_self ..)
    have recorded := entityOf_record freeEntity freeNode
    intro pair member
    rcases List.mem_cons.1 member with rfl | later
    · exact (stays_foldl_record rest _).kept _ _ recorded
    · refine ih apartRest (fun other listed => ?_) pair later
      obtain ⟨entities, nodes⟩ := different other listed
      unfold record
      simp only [freeEntity, freeNode, Std.ExtTreeMap.getElem?_insert, Std.compare_eq_iff_eq]
      rw [if_neg entities, if_neg nodes]
      exact clear other (List.mem_cons_of_mem first listed)

end Correspondence

end ConceptLaws
