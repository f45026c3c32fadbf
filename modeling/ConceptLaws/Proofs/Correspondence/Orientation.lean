import ConceptLaws.Proofs.Correspondence.Assignments
import ConceptLaws.Proofs.Correspondence.Rederivation

/-! Orientations.
A correspondence is seeded from a placement of a node and of all that it needs, where the sides of
an entity of a symmetric concept may be exchanged. The search plans the head of a node before its
reference and never goes back to another placement of the head. So what it finds is a placement, and
it finds one where there is one if one placement of a head may stand in for another. -/

namespace ConceptLaws

open Correspondence

/-! ## Placements -/

namespace Catalog

/-- Sides are exchanged only for a symmetric concept. -/
def Allows (catalog : Catalog) (id : ConceptId) (swapped : Bool) : Prop :=
  swapped = true → ∃ concept, catalog.concept? id = some concept ∧ concept.symmetric = true

theorem mem_orientations {catalog : Catalog} {id : ConceptId} {swapped : Bool} :
    swapped ∈ catalog.orientations id ↔ catalog.Allows id swapped := by
  unfold orientations Allows
  cases catalog.concept? id with
  | none => cases swapped <;> simp
  | some concept => cases swapped <;> cases symmetric : concept.symmetric <;> simp [symmetric]

/-- A node stands at an accepted entity of its concept with a value that it includes, and what it
links to stands at what the entity links to, on the same sides or on the exchanged ones. -/
def Suits (catalog : Catalog) (relation : Relation) (law : LawId) (place : LawNodeId → EntityId)
    (id : LawNodeId) : Prop :=
  ∃ node entity swapped, catalog.lawNode? law id = some node ∧
    relation.get? (place id) = some entity ∧ entity.isTentative = false ∧
    catalog.instanceOf entity.concept node.concept = true ∧
    node.value.includes entity.value = true ∧ catalog.Allows entity.concept swapped ∧
    ∀ side parent, node.parent side = some parent →
      entity.parent (side.oriented swapped) = some (place parent)

instance (catalog : Catalog) (relation : Relation) (law : LawId) (place : LawNodeId → EntityId)
    (id : LawNodeId) : Decidable (catalog.Suits relation law place id) :=
  decidable_of_iff (∃ node ∈ (catalog.lawNode? law id).toList,
      ∃ entity ∈ (relation.get? (place id)).toList, ∃ swapped ∈ catalog.orientations entity.concept,
        entity.isTentative = false ∧ catalog.instanceOf entity.concept node.concept = true ∧
          node.value.includes entity.value = true ∧ ∀ side ∈ Side.both,
            ∀ parent ∈ (node.parent side).toList,
              entity.parent (side.oriented swapped) = some (place parent)) <| by
    have sides (side : Side) : side ∈ Side.both := by cases side <;> decide
    simp only [Option.mem_toList, mem_orientations, Suits]
    constructor
    · rintro ⟨node, named, entity, present, swapped, allowed, accepted, instance_, includes, links⟩
      exact ⟨node, entity, swapped, named, present, accepted, instance_, includes, allowed,
        fun side => links side (sides side)⟩
    · rintro ⟨node, entity, swapped, named, present, accepted, instance_, includes, allowed, links⟩
      exact ⟨node, named, entity, present, swapped, allowed, accepted, instance_, includes,
        fun side _ => links side⟩

/-- A node and all that it needs are placed, at different entities. -/
structure Assigns (catalog : Catalog) (relation : Relation) (law : LawId) (root : LawNodeId)
    (place : LawNodeId → EntityId) : Prop where
  injective : ∀ first second, catalog.Needs law root first → catalog.Needs law root second →
    place first = place second → first = second
  suits : ∀ id, catalog.Needs law root id → catalog.Suits relation law place id

/-- Wherever a node with both links is placed, what its head needs may as well be placed in any
other way that leaves the head at its entity. -/
def Exchanges (catalog : Catalog) (relation : Relation) (law : LawId) (root : LawNodeId)
    (entity : EntityId) : Prop :=
  ∀ place other mixed id node head, catalog.Assigns relation law root place →
    place root = entity → catalog.Needs law root id → catalog.lawNode? law id = some node →
    node.head = some head → node.reference.isSome = true →
    catalog.Assigns relation law head other → other head = place head →
    (∀ needed, catalog.Needs law head needed → mixed needed = other needed) →
    (∀ needed, ¬catalog.Needs law head needed → mixed needed = place needed) →
      catalog.Assigns relation law root mixed

variable {catalog : Catalog} {relation : Relation} {law : LawId} {root : LawNodeId}
  {place : LawNodeId → EntityId}

theorem Assigns.needed (assigns : catalog.Assigns relation law root place) {id : LawNodeId}
    (needs : catalog.Needs law root id) : catalog.Assigns relation law id place :=
  ⟨fun first second needsFirst needsSecond =>
      assigns.injective first second (needs.trans needsFirst) (needs.trans needsSecond),
    fun other needsOther => assigns.suits other (needs.trans needsOther)⟩

end Catalog

/-! ## What a plan places -/

namespace PairPlan

/-- Where a plan places a node. -/
def place (plan : PairPlan) (id : LawNodeId) : EntityId :=
  ((plan.find? fun pair => pair.node == id).map Pair.entity).getD ⟨0⟩

/-- Two pairs of a plan that are not the same share nothing. -/
theorem Apart.different {plan : PairPlan} (apart : plan.Apart) {first second : Pair}
    (left : first ∈ plan) (right : second ∈ plan) (different : first ≠ second) :
    first.entity ≠ second.entity ∧ first.node ≠ second.node := by
  have : Std.Symm fun first second : Pair =>
      first.entity ≠ second.entity ∧ first.node ≠ second.node :=
    ⟨fun _ _ apart => ⟨apart.1.symm, apart.2.symm⟩⟩
  exact apart.forall left right different

theorem Apart.place_eq {plan : PairPlan} (apart : plan.Apart) {pair : Pair} (member : pair ∈ plan) :
    plan.place pair.node = pair.entity := by
  unfold place
  cases found : plan.find? fun other => other.node == pair.node with
  | none =>
    have absent := List.find?_eq_none.1 found pair member
    simp at absent
  | some other =>
    have same : other.node = pair.node := by simpa using List.find?_some found
    have here : other = pair := by
      by_contra different
      exact (apart.different (List.mem_of_find?_eq_some found) member different).2 same
    rw [here]
    rfl

variable {catalog : Catalog} {relation : Relation} {law : LawId} {root : LawNodeId}
  {plan : PairPlan}

/-- What a node needs is planned in a way that backs it. -/
def Settled (plan : PairPlan) (catalog : Catalog) (relation : Relation) (law : LawId)
    (root : LawNodeId) : Prop :=
  ∀ pair ∈ plan, catalog.Needs law root pair.node → (empty law).Backed relation catalog plan pair

/-- All that is needed is planned. -/
theorem Settled.planned (settled : plan.Settled catalog relation law root) {entity : EntityId}
    (first : ⟨entity, root⟩ ∈ plan) {id : LawNodeId} (needs : catalog.Needs law root id) :
    ∃ entity, ⟨entity, id⟩ ∈ plan := by
  induction needs with
  | self => exact ⟨entity, first⟩
  | link side needed found leads ih =>
    obtain ⟨at_, member⟩ := ih
    obtain ⟨_, node, _, -, named, -, -, linked⟩ := settled _ member needed
    obtain rfl := Option.some.inj (found.symm.trans named)
    obtain ⟨parent, -, planned⟩ := linked side _ leads
    exact ⟨parent, planned.resolve_right not_has_empty⟩

/-- A plan that backs what a node needs places it. -/
theorem Settled.assigns (settled : plan.Settled catalog relation law root) (apart : plan.Apart)
    {entity : EntityId} (first : ⟨entity, root⟩ ∈ plan) :
    catalog.Assigns relation law root plan.place := by
  refine ⟨fun one other needsOne needsOther same => ?_, fun id needs => ?_⟩
  · obtain ⟨_, memberOne⟩ := settled.planned first needsOne
    obtain ⟨_, memberOther⟩ := settled.planned first needsOther
    by_contra different
    have entities := apart.different memberOne memberOther fun equal =>
      different (congrArg Pair.node equal)
    apply entities.1
    rw [← apart.place_eq memberOne, ← apart.place_eq memberOther]
    exact same
  · obtain ⟨at_, member⟩ := settled.planned first needs
    obtain ⟨found, node, swapped, present, named, accepted, allowed, linked⟩ :=
      settled _ member needs
    obtain rfl : plan.place id = at_ := apart.place_eq member
    simp only [LawNode.accepts, Bool.and_eq_true, Bool.not_eq_true'] at accepted
    refine ⟨node, found, swapped, named, present, accepted.1.1.1, accepted.1.2, accepted.2,
      Catalog.mem_orientations.1 allowed, fun side parent leads => ?_⟩
    obtain ⟨above, leadsTo, planned⟩ := linked side parent leads
    have placed := apart.place_eq (planned.resolve_right not_has_empty)
    exact leadsTo.trans (congrArg some placed.symm)

theorem Settled.widen {later : PairPlan} {id : LawNodeId}
    (settled : plan.Settled catalog relation law id)
    (widens : (empty law).Widens relation catalog root plan later) :
    later.Settled catalog relation law id := by
  intro pair member needs
  rcases widens.backed pair member with before | backed
  · exact (settled pair before needs).mono widens.kept
  · exact backed

/-- All pairs are pairs of the placement, and no two share anything. -/
structure Along (plan : PairPlan) (catalog : Catalog) (law : LawId) (root : LawNodeId)
    (place : LawNodeId → EntityId) : Prop where
  follows : ∀ pair ∈ plan, catalog.Needs law root pair.node ∧ pair.entity = place pair.node
  apart : plan.Apart

end PairPlan

/-! ## Exchanging a head -/

namespace Catalog

variable {catalog : Catalog} {relation : Relation} {law : LawId} {root : LawNodeId}
  {place : LawNodeId → EntityId} {entity : EntityId}

/-- The links of a node settle where its reference stands as soon as they settle where its head
stands: it stands at the entity on the other side. -/
theorem Assigns.reference_eq {mixed : LawNodeId → EntityId}
    (assigns : catalog.Assigns relation law root place)
    (mixes : catalog.Assigns relation law root mixed) {id head reference : LawNodeId}
    {node : LawNode} (needs : catalog.Needs law root id)
    (named : catalog.lawNode? law id = some node) (headed : node.parent .head = some head)
    (referred : node.parent .reference = some reference) (here : mixed id = place id)
    (above : mixed head = place head) : mixed reference = place reference := by
  obtain ⟨own, found, swapped, ownNamed, present, -, -, -, -, links⟩ := assigns.suits id needs
  obtain ⟨other, foundToo, swappedToo, otherNamed, presentToo, -, -, -, -, linksToo⟩ :=
    mixes.suits id needs
  obtain rfl := Option.some.inj (named.symm.trans ownNamed)
  obtain rfl := Option.some.inj (named.symm.trans otherNamed)
  rw [here] at presentToo
  obtain rfl := Option.some.inj (present.symm.trans presentToo)
  by_cases same : swappedToo = swapped
  · subst same
    exact Option.some.inj ((linksToo .reference _ referred).symm.trans
      (links .reference _ referred))
  · -- the sides are exchanged in one of the two only, so both links lead to one entity
    have crossed : Side.head.oriented swappedToo = Side.reference.oriented swapped := by
      cases swapped <;> cases swappedToo <;> first | rfl | exact absurd rfl same
    have meets : place head = place reference := by
      have first := linksToo .head head headed
      rw [crossed, links .reference reference referred, above] at first
      exact (Option.some.inj first).symm
    have joined : head = reference :=
      assigns.injective head reference (needs.trans (.above named headed))
        (needs.trans (.above named referred)) meets
    rw [← joined]
    exact above

/-- What a plan places for a head is exchanged for what a placement has there. -/
theorem Exchanges.exists_mixed (exchanges : catalog.Exchanges relation law root entity)
    (valid : catalog.Valid) (assigns : catalog.Assigns relation law root place)
    (stands : place root = entity) {id head reference : LawNodeId} {node : LawNode}
    (needs : catalog.Needs law root id) (named : catalog.lawNode? law id = some node)
    (headed : node.parent .head = some head) (referred : node.parent .reference = some reference)
    {plan : PairPlan} (apart : plan.Apart) (settled : plan.Settled catalog relation law head)
    (first : placed place head ∈ plan) : ∃ mixed, catalog.Assigns relation law root mixed ∧
      mixed root = entity ∧ mixed reference = place reference ∧
      (∀ needed, catalog.Needs law head needed → mixed needed = plan.place needed) ∧
      ∀ needed, ¬catalog.Needs law head needed → mixed needed = place needed := by
  classical
  let mixed : LawNodeId → EntityId := fun needed =>
    if catalog.Needs law head needed then plan.place needed else place needed
  have inside : ∀ needed, catalog.Needs law head needed → mixed needed = plan.place needed :=
    fun _ needs => if_pos needs
  have outside : ∀ needed, ¬catalog.Needs law head needed → mixed needed = place needed :=
    fun _ free => if_neg free
  have atHead : plan.place head = place head := apart.place_eq first
  have mixes : catalog.Assigns relation law root mixed :=
    exchanges place plan.place mixed id node head assigns stands needs named headed
      (by rw [Option.isSome_iff_exists]; exact ⟨reference, referred⟩) (settled.assigns apart first)
      atHead inside outside
  have below : ¬catalog.Needs law head id := valid.not_needs_of_parent named headed
  refine ⟨mixed, mixes, ?_, ?_, inside, outside⟩
  · rw [outside root fun back => below (back.trans needs)]
    exact stands
  · exact assigns.reference_eq mixes needs named headed referred (outside id below)
      ((inside head .self).trans atHead)

end Catalog

/-! ## The search -/

namespace Catalog.Assigns

variable {catalog : Catalog} {relation : Relation} {law : LawId} {root : LawNodeId}
  {place : LawNodeId → EntityId} {entity : EntityId} {plan : PairPlan}

theorem admission_ne_conflict (assigns : catalog.Assigns relation law root place)
    (along : plan.Along catalog law root place) {id : LawNodeId}
    (needs : catalog.Needs law root id) :
    PairPlan.admission (placed place id) plan ≠ .conflict := by
  refine PairPlan.admission_ne_conflict fun planned member shared => ?_
  obtain ⟨needed, same⟩ := along.follows planned member
  have node : planned.node = id := by
    rcases shared with entity | node
    · exact assigns.injective planned.node id needed needs (same.symm.trans entity)
    · exact node
  obtain ⟨spot, node'⟩ := planned
  obtain rfl : node' = id := node
  obtain rfl : spot = place node' := same
  rfl

/-- A free pair of the placement goes along with it. -/
theorem along_append (along : plan.Along catalog law root place) {id : LawNodeId}
    (needs : catalog.Needs law root id)
    (free : PairPlan.admission (placed place id) plan = .free) :
    PairPlan.Along (plan ++ [placed place id]) catalog law root place := by
  refine ⟨fun pair member => ?_, List.pairwise_append.2 ⟨along.apart,
    List.pairwise_singleton _ _, fun first old second new => ?_⟩⟩
  · rcases List.mem_append.1 member with before | last
    · exact along.follows pair before
    · rw [List.mem_singleton.1 last]
      exact ⟨needs, rfl⟩
  · rw [List.mem_singleton.1 new]
    exact PairPlan.admission_eq_free free first old

/-- What is planned with the head of a node keeps to some placement that has the same entities at
the node's parents. -/
theorem along_widened {later : PairPlan} (along : plan.Along catalog law root place)
    {head : LawNodeId} (needs : catalog.Needs law root head)
    (widens : (empty law).Widens relation catalog head plan later) {mixed : LawNodeId → EntityId}
    (inside : ∀ needed, catalog.Needs law head needed → mixed needed = later.place needed)
    (outside : ∀ needed, ¬catalog.Needs law head needed → mixed needed = place needed) :
    later.Along catalog law root mixed := by
  have apart := widens.apart along.apart
  refine ⟨fun pair member => ⟨?_, ?_⟩, apart⟩
  · rcases widens.needed pair member with before | needed
    · exact (along.follows pair before).1
    · exact needs.trans needed
  · by_cases needed : catalog.Needs law head pair.node
    · rw [inside pair.node needed, apart.place_eq member]
    · rw [outside pair.node needed]
      exact (along.follows pair ((widens.needed pair member).resolve_right needed)).2

section Search

variable (valid : catalog.Valid) (exchanges : catalog.Exchanges relation law root entity)

include valid exchanges

/-- Where every placed pair can be planned, the parents of a node can be planned one after the
other. -/
theorem exists_planParents {planPair : PairPlan → Pair → Option PairPlan} {node : LawNode}
    (plans : ∀ {place : LawNodeId → EntityId} {plan : PairPlan} {side : Side} {parent : LawNodeId},
      catalog.Assigns relation law root place → place root = entity →
      plan.Along catalog law root place → plan.Settled catalog relation law parent →
      node.parent side = some parent →
        ∃ later, planPair plan (placed place parent) = some later ∧
          (empty law).Widens relation catalog parent plan later ∧ placed place parent ∈ later)
    (assigns : catalog.Assigns relation law root place) (stands : place root = entity)
    (along : plan.Along catalog law root place) {id : LawNodeId}
    (needs : catalog.Needs law root id) (named : catalog.lawNode? law id = some node)
    (settled : ∀ side parent, node.parent side = some parent →
      plan.Settled catalog relation law parent) {found : Entity} {swapped : Bool}
    (links : ∀ side parent, node.parent side = some parent →
      found.parent (side.oriented swapped) = some (place parent)) :
    ∃ later, planParents planPair found node swapped plan = some later := by
  have bare {side : Side} (rootless : node.parent side = none) (plan : PairPlan) :
      planSide planPair found node swapped plan side = some plan := by
    simp only [planSide, rootless]
  have linked {side : Side} {parent : LawNodeId} (leads : node.parent side = some parent)
      (plan : PairPlan) : planSide planPair found node swapped plan side =
        planPair plan (placed place parent) := by
    simp only [planSide, leads, links side parent leads, placed]
  simp only [planParents_eq, Side.both, List.foldlM_cons, List.foldlM_nil, Option.pure_def,
    Option.bind_eq_bind, Option.bind_fun_some]
  cases headed : node.parent .head with
  | none =>
    rw [bare headed, Option.bind_some]
    cases referred : node.parent .reference with
    | none => exact ⟨plan, bare referred plan⟩
    | some reference =>
      obtain ⟨later, planned, -⟩ :=
        plans assigns stands along (settled .reference reference referred) referred
      exact ⟨later, (linked referred plan).trans planned⟩
  | some head =>
    obtain ⟨middle, planned, widens, first⟩ :=
      plans assigns stands along (settled .head head headed) headed
    rw [linked headed, planned, Option.bind_some]
    cases referred : node.parent .reference with
    | none => exact ⟨middle, bare referred middle⟩
    | some reference =>
      obtain ⟨mixed, mixes, standsToo, same, inside, outside⟩ := exchanges.exists_mixed valid assigns
        stands needs named headed referred (widens.apart along.apart)
        ((settled .head head headed).widen widens) first
      have alongToo := along_widened along (needs.trans (.above named headed)) widens inside outside
      obtain ⟨later, plannedToo, -⟩ := plans mixes standsToo alongToo
        ((settled .reference reference referred).widen widens) referred
      refine ⟨later, (linked referred middle).trans ?_⟩
      unfold placed at plannedToo ⊢
      rw [← same]
      exact plannedToo

/-- Every pair of a placement can be planned. -/
theorem exists_planPair (plain : ∀ id node, catalog.Needs law root id →
      catalog.lawNode? law id = some node → node.isData = false) {owner : Law}
    (listed : catalog.law? law = some owner) (depth : Nat) :
    ∀ {place : LawNodeId → EntityId} {plan : PairPlan} {id : LawNodeId},
      catalog.Assigns relation law root place → place root = entity →
      plan.Along catalog law root place → plan.Settled catalog relation law id →
      catalog.Needs law root id → owner.walk depth [id] = [] → ∃ later,
        (empty law).planPair relation catalog depth plan (placed place id) = some later := by
  induction depth with
  | zero =>
    intro place plan id _ _ _ _ _ ends
    simp [Law.walk] at ends
  | succ depth ih =>
    intro place plan id assigns stands along settled needs ends
    have admits : (empty law).admits plan (placed place id) =
        PairPlan.admission (placed place id) plan := by
      simp [admits, admission, empty]
    have fits := assigns.admission_ne_conflict along needs
    unfold planPair
    rw [admits]
    cases admission : PairPlan.admission (placed place id) plan with
    | conflict => exact (fits admission).elim
    | present => exact ⟨plan, rfl⟩
    | free =>
      obtain ⟨node, found, swapped, named, present, accepted, instance_, includes, allowed, links⟩ :=
        assigns.suits id needs
      have suits : node.accepts catalog found = true := by
        simp [LawNode.accepts, accepted, instance_, includes, plain id node needs named]
      have start := along_append along needs admission
      have settledStart : ∀ side parent, node.parent side = some parent →
          PairPlan.Settled (plan ++ [placed place id]) catalog relation law parent := by
        intro side parent leads pair member needed
        rcases List.mem_append.1 member with before | last
        · exact (settled pair before ((Catalog.Needs.above named leads).trans needed)).mono
            (List.prefix_append plan _)
        · rw [List.mem_singleton.1 last] at needed
          exact absurd needed (valid.not_needs_of_parent named leads)
      have ownNode : owner.node? id = some node := by
        simpa [Catalog.lawNode?, listed] using named
      have plans {place : LawNodeId → EntityId} {plan : PairPlan} {side : Side}
          {parent : LawNodeId} (assigns : catalog.Assigns relation law root place)
          (stands : place root = entity) (along : plan.Along catalog law root place)
          (settled : plan.Settled catalog relation law parent)
          (leads : node.parent side = some parent) : ∃ later,
            (empty law).planPair relation catalog depth plan (placed place parent) = some later ∧
              (empty law).Widens relation catalog parent plan later ∧
                placed place parent ∈ later := by
        have shorter : owner.walk depth [parent] ⊆ owner.walk (depth + 1) [id] :=
          Law.walk_above_subset depth ownNode (LawNode.mem_parents.2 ⟨side, leads⟩)
        rw [ends] at shorter
        obtain ⟨later, planned⟩ := ih assigns stands along settled
          (needs.trans (.above named leads)) (List.subset_nil.1 shorter)
        obtain ⟨widens, first⟩ := widens_planPair depth planned
        exact ⟨later, planned, widens, first.resolve_right not_has_empty⟩
      obtain ⟨later, parents⟩ := exists_planParents valid exchanges plans assigns stands start needs
        named settledStart links
      have here : relation.get? (placed place id).entity = some found := present
      have below : catalog.lawNode? (empty law).law (placed place id).node = some node := named
      rw [here, below]
      dsimp only
      rw [if_pos suits]
      apply Option.isSome_iff_exists.1
      rw [List.findSome?_isSome_iff]
      exact ⟨swapped, Catalog.mem_orientations.2 allowed, by rw [parents]; rfl⟩

/-- A placement of a node leads to a plan. -/
theorem exists_plan (plain : ∀ id node, catalog.Needs law root id →
      catalog.lawNode? law id = some node → node.isData = false)
    (assigns : catalog.Assigns relation law root place) (stands : place root = entity) :
    ∃ plan, (empty law).plan? relation catalog ⟨entity, root⟩ = some plan := by
  obtain ⟨node, _, _, named, -⟩ := assigns.suits root .self
  obtain ⟨owner, listed, ownNode⟩ := Catalog.lawNode?_eq_some named
  obtain ⟨member, same⟩ := Law.node?_eq_some ownNode
  have ends := (valid.distinct.valid owner (Catalog.law?_eq_some listed).1).acyclic node member
  rw [same] at ends
  have depth : (empty law).planDepth catalog = owner.nodes.length + 1 := by
    simp [planDepth, empty, listed]
  have along : PairPlan.Along [] catalog law root place := ⟨by simp, .nil⟩
  have settled : PairPlan.Settled [] catalog relation law root := by simp [PairPlan.Settled]
  obtain ⟨plan, planned⟩ := exists_planPair valid exchanges plain listed (owner.nodes.length + 1)
    assigns stands along settled .self ends
  refine ⟨plan, ?_⟩
  unfold plan?
  rw [depth, ← stands]
  exact planned

end Search

end Catalog.Assigns

/-- What a plan starts from is placed by it. -/
theorem Correspondence.exists_assigns {catalog : Catalog} {relation : Relation} {law : LawId}
    {pair : Pair} {plan : PairPlan}
    (planned : (empty law).plan? relation catalog pair = some plan) :
    ∃ place, catalog.Assigns relation law pair.node place ∧ place pair.node = pair.entity := by
  obtain ⟨apart, first, backed⟩ := widens_plan planned
  have settled : plan.Settled catalog relation law pair.node :=
    fun other member _ => (backed other member).2
  exact ⟨plan.place, settled.assigns apart first, apart.place_eq first⟩

/-! ## Heads without a choice -/

namespace Catalog

variable {catalog : Catalog} {relation : Relation} {law : LawId} {root : LawNodeId}
  {place other : LawNodeId → EntityId}

/-- A placement is about the needed nodes only. -/
theorem Assigns.congr (assigns : catalog.Assigns relation law root place)
    (same : ∀ id, catalog.Needs law root id → other id = place id) :
    catalog.Assigns relation law root other := by
  refine ⟨fun first second needsFirst needsSecond equal => ?_, fun id needs => ?_⟩
  · rw [same first needsFirst, same second needsSecond] at equal
    exact assigns.injective first second needsFirst needsSecond equal
  · obtain ⟨node, entity, swapped, named, present, accepted, instance_, includes, allowed, links⟩ :=
      assigns.suits id needs
    refine ⟨node, entity, swapped, named, ?_, accepted, instance_, includes, allowed, ?_⟩
    · rw [same id needs]
      exact present
    · intro side parent leads
      rw [same parent (needs.link side named leads)]
      exact links side parent leads

/-- No entity of a symmetric concept can stand at what the node needs. -/
def Straight (catalog : Catalog) (law : LawId) (root : LawNodeId) : Prop :=
  ∀ id node, catalog.Needs law root id → catalog.lawNode? law id = some node →
    ∀ concept known, catalog.instanceOf concept node.concept = true →
      catalog.concept? concept = some known → known.symmetric = false

/-- Without symmetric concepts a node stands in one way at most. -/
theorem Assigns.eq_of_straight (straight : catalog.Straight law root)
    (assigns : catalog.Assigns relation law root place)
    (another : catalog.Assigns relation law root other) (start : other root = place root)
    {id : LawNodeId} (needs : catalog.Needs law root id) : other id = place id := by
  have unswapped {place : LawNodeId → EntityId} (assigns : catalog.Assigns relation law root place)
      {id : LawNodeId} (needs : catalog.Needs law root id) : ∃ node entity,
        catalog.lawNode? law id = some node ∧ relation.get? (place id) = some entity ∧
          ∀ side parent, node.parent side = some parent →
            entity.parent side = some (place parent) := by
    obtain ⟨node, entity, swapped, named, present, -, instance_, -, allowed, links⟩ :=
      assigns.suits id needs
    refine ⟨node, entity, named, present, ?_⟩
    cases swapped with
    | false => exact links
    | true =>
      obtain ⟨known, found, symmetric⟩ := allowed rfl
      have plain := straight id node needs named entity.concept known instance_ found
      simp [symmetric] at plain
  induction needs with
  | self => exact start
  | link side needed found leads ih =>
    obtain ⟨node, entity, named, present, links⟩ := unswapped assigns needed
    obtain ⟨nodeToo, entityToo, namedToo, presentToo, linksToo⟩ := unswapped another needed
    obtain rfl := Option.some.inj (found.symm.trans named)
    obtain rfl := Option.some.inj (found.symm.trans namedToo)
    rw [ih] at presentToo
    obtain rfl := Option.some.inj (present.symm.trans presentToo)
    exact Option.some.inj ((linksToo side _ leads).symm.trans (links side _ leads))

/-- Heads can be exchanged where symmetric concepts only come above references, or above nodes with
one link. -/
theorem exchanges_of_straight (straight : ∀ id node head, catalog.Needs law root id →
    catalog.lawNode? law id = some node → node.head = some head → node.reference.isSome = true →
      catalog.Straight law head) (entity : EntityId) :
    catalog.Exchanges relation law root entity := by
  intro place other mixed id node head assigns _ needs named headed referred another start inside
    outside
  apply assigns.congr
  intro needed _
  by_cases above : catalog.Needs law head needed
  · rw [inside needed above]
    have leads : node.parent .head = some head := headed
    exact (assigns.needed (needs.trans (.above named leads))).eq_of_straight
      (straight id node head needs named headed referred) another start above
  · exact outside needed above

end Catalog

namespace Matcher

theorem seed_isSome_iff {matcher : Matcher} (blank : matcher.isEmpty = true) (relation : Relation)
    (catalog : Catalog) (law : LawId) (pair : Pair) :
    (matcher.seed relation catalog law pair).1.isSome = true ↔
      ∃ plan, (Correspondence.empty law).plan? relation catalog pair = some plan := by
  have fresh : matcher.isSeeded pair = false := by
    unfold isSeeded
    rw [List.any_eq_false]
    intro id _
    have none_ : matcher.get? id = none := by
      unfold get?
      rw [Std.ExtTreeMap.isEmpty_iff.1 blank, Std.ExtTreeMap.getElem?_empty]
    rw [none_]
    exact Bool.false_ne_true
  rw [seed_eq, fresh]
  cases (Correspondence.empty law).plan? relation catalog pair <;> simp

/-- A correspondence that is seeded at an entity comes from a placement. And where there is a
placement one is seeded, provided that nothing that is needed is a data node, and that placements of
heads can be exchanged. -/
theorem seed_iff_assigns {catalog : Catalog} (valid : catalog.Valid) {matcher : Matcher}
    (blank : matcher.isEmpty = true) (relation : Relation) (law : LawId) (entity : EntityId)
    (root : LawNodeId) :
    ((matcher.seed relation catalog law ⟨entity, root⟩).1.isSome = true →
      ∃ place, catalog.Assigns relation law root place ∧ place root = entity) ∧
    ((∀ id node, catalog.Needs law root id → catalog.lawNode? law id = some node →
        node.isData = false) → catalog.Exchanges relation law root entity →
      ((matcher.seed relation catalog law ⟨entity, root⟩).1.isSome = true ↔
        ∃ place, catalog.Assigns relation law root place ∧ place root = entity)) := by
  rw [seed_isSome_iff blank]
  have sound : (∃ plan, (Correspondence.empty law).plan? relation catalog ⟨entity, root⟩ =
      some plan) → ∃ place, catalog.Assigns relation law root place ∧ place root = entity := by
    rintro ⟨plan, planned⟩
    exact exists_assigns planned
  refine ⟨sound, fun plain exchanges => ⟨sound, ?_⟩⟩
  rintro ⟨place, assigns, stands⟩
  exact assigns.exists_plan valid exchanges plain stands

end Matcher

/-! ## Crossed links -/

namespace Catalog

variable {catalog : Catalog} {law : LawId} {root : LawNodeId} {ids : List LawNodeId}

theorem straight_of_closed (first : root ∈ ids)
    (closed : ∀ id ∈ ids, ∀ node ∈ (catalog.lawNode? law id).toList, ∀ parent ∈ node.parents,
      parent ∈ ids)
    (plain : ∀ id ∈ ids, ∀ node ∈ (catalog.lawNode? law id).toList, ∀ concept ∈ catalog.concepts,
      catalog.instanceOf concept.id node.concept = true → concept.symmetric = false) :
    catalog.Straight law root := by
  intro id node needs named concept known instance_ found
  obtain ⟨member, rfl⟩ : known ∈ catalog.concepts ∧ known.id = concept :=
    ⟨List.mem_of_find?_eq_some found, by simpa using List.find?_some found⟩
  exact plain id (needs.mem_of_closed first closed) node (Option.mem_toList.2 named) known member
    instance_

end Catalog

/-- The letters, with a symmetric q. -/
def symmetricLetters : List Concept :=
  letters.map fun concept => { concept with symmetric := concept.id == ⟨2⟩ }

/-- A q between two p, an r below the first of them, and an s between two of these. -/
def crossingLaw (head reference : LawNodeId) : Law :=
  letterLaw 100 [⟨1⟩, ⟨2⟩, ⟨3⟩, ⟨4⟩, ⟨5⟩] [letterNode 1 1 none none, letterNode 2 1 none none,
    letterNode 3 2 (some ⟨1⟩) (some ⟨2⟩), letterNode 4 3 (some ⟨1⟩) none,
    letterNode 5 4 (some head) (some reference)]

def crossing (head reference : LawNodeId) : Catalog :=
  .unchecked ⟨symmetricLetters, [crossingLaw head reference]⟩

/-- The r is below the second p of the q. -/
def crossed (head reference : EntityId) : Relation :=
  letterRelation [letterRecord 1 1 none, letterRecord 2 1 none,
    { letterRecord 3 2 (some ⟨1⟩) with reference := some ⟨2⟩ }, letterRecord 4 3 (some ⟨2⟩),
    { letterRecord 5 4 (some head) with reference := some reference }]

namespace Matcher

/-- With the r planned first, the q is found to be exchanged. -/
theorem seed_iff_assigns_crossed : (crossing ⟨4⟩ ⟨3⟩).Valid ∧
    (crossing ⟨4⟩ ⟨3⟩).Exchanges (crossed ⟨4⟩ ⟨3⟩) ⟨100⟩ ⟨5⟩ ⟨5⟩ ∧
    ∃ place, (crossing ⟨4⟩ ⟨3⟩).Assigns (crossed ⟨4⟩ ⟨3⟩) ⟨100⟩ ⟨5⟩ place ∧ place ⟨5⟩ = ⟨5⟩ := by
  have valid : (crossing ⟨4⟩ ⟨3⟩).Valid := Catalog.valid_unchecked rfl rfl rfl
  have nodes {id : LawNodeId} (needs : (crossing ⟨4⟩ ⟨3⟩).Needs ⟨100⟩ ⟨5⟩ id) :
      id ∈ [⟨1⟩, ⟨2⟩, ⟨3⟩, ⟨4⟩, ⟨5⟩] :=
    needs.mem_of_closed (by decide) (by decide +kernel)
  have exchanges : (crossing ⟨4⟩ ⟨3⟩).Exchanges (crossed ⟨4⟩ ⟨3⟩) ⟨100⟩ ⟨5⟩ ⟨5⟩ := by
    apply Catalog.exchanges_of_straight
    intro id node head needs named headed referred
    have heads : ∀ id ∈ [⟨1⟩, ⟨2⟩, ⟨3⟩, ⟨4⟩, ⟨5⟩],
        ∀ node ∈ ((crossing ⟨4⟩ ⟨3⟩).lawNode? ⟨100⟩ id).toList, ∀ head ∈ node.head.toList,
          node.reference.isSome = true → head ∈ [⟨1⟩, ⟨4⟩] := by
      decide +kernel
    have listed := heads id (nodes needs) node (Option.mem_toList.2 named) head
      (Option.mem_toList.2 headed) referred
    exact Catalog.straight_of_closed listed (by decide +kernel) (by decide +kernel)
  refine ⟨valid, exchanges, ?_⟩
  have plain : ∀ id node, (crossing ⟨4⟩ ⟨3⟩).Needs ⟨100⟩ ⟨5⟩ id →
      (crossing ⟨4⟩ ⟨3⟩).lawNode? ⟨100⟩ id = some node → node.isData = false := by
    intro id node needs named
    have all : ∀ id ∈ [⟨1⟩, ⟨2⟩, ⟨3⟩, ⟨4⟩, ⟨5⟩], ∀ node ∈ ((crossing ⟨4⟩ ⟨3⟩).lawNode? ⟨100⟩ id).toList,
      node.isData = false := by decide +kernel
    exact all id (nodes needs) node (Option.mem_toList.2 named)
  obtain ⟨-, exact_⟩ :=
    @seed_iff_assigns _ valid (empty 1) rfl (crossed ⟨4⟩ ⟨3⟩) ⟨100⟩ ⟨5⟩ ⟨5⟩
  exact (exact_ plain exchanges).1 (by decide +kernel)

/-- Where the first p of the law is. -/
def crossedPlace (id : LawNodeId) : EntityId :=
  if id = ⟨1⟩ then ⟨2⟩ else if id = ⟨2⟩ then ⟨1⟩ else ⟨id.number⟩

theorem assigns_crossedPlace :
    (crossing ⟨3⟩ ⟨4⟩).Assigns (crossed ⟨3⟩ ⟨4⟩) ⟨100⟩ ⟨5⟩ crossedPlace := by
  have nodes {id : LawNodeId} (needs : (crossing ⟨3⟩ ⟨4⟩).Needs ⟨100⟩ ⟨5⟩ id) :
      id ∈ [⟨1⟩, ⟨2⟩, ⟨3⟩, ⟨4⟩, ⟨5⟩] :=
    needs.mem_of_closed (by decide) (by decide +kernel)
  have injective : ∀ first ∈ [⟨1⟩, ⟨2⟩, ⟨3⟩, ⟨4⟩, ⟨5⟩], ∀ second ∈ [⟨1⟩, ⟨2⟩, ⟨3⟩, ⟨4⟩, ⟨5⟩],
      crossedPlace first = crossedPlace second → first = second := by
    decide +kernel
  have suits : ∀ id ∈ [⟨1⟩, ⟨2⟩, ⟨3⟩, ⟨4⟩, ⟨5⟩],
      (crossing ⟨3⟩ ⟨4⟩).Suits (crossed ⟨3⟩ ⟨4⟩) ⟨100⟩ crossedPlace id := by
    decide +kernel
  exact ⟨fun first second needsFirst needsSecond =>
    injective first (nodes needsFirst) second (nodes needsSecond),
    fun id needs => suits id (nodes needs)⟩

/-- With the q planned first, it is not exchanged, and the r is not found below its first p. -/
theorem not_forall_seed_iff_assigns : ¬∀ (catalog : Catalog) (matcher : Matcher)
    (relation : Relation) (law : LawId) (entity : EntityId) (root : LawNodeId), catalog.Valid →
      matcher.isEmpty = true →
        (∀ node, catalog.lawNode? law root = some node → node.isData = false) →
          ((matcher.seed relation catalog law ⟨entity, root⟩).1.isSome = true ↔
            ∃ place, catalog.Assigns relation law root place ∧ place root = entity) := by
  intro all
  have seeded := (all (crossing ⟨3⟩ ⟨4⟩) (empty 1) (crossed ⟨3⟩ ⟨4⟩) ⟨100⟩ ⟨5⟩ ⟨5⟩
    (Catalog.valid_unchecked rfl rfl rfl) rfl
    (fun node named => by
      have plain : ∀ node ∈ ((crossing ⟨3⟩ ⟨4⟩).lawNode? ⟨100⟩ ⟨5⟩).toList, node.isData = false := by
        decide +kernel
      exact plain node (Option.mem_toList.2 named))).2 ⟨crossedPlace, assigns_crossedPlace, rfl⟩
  exact absurd seeded (by decide +kernel)

end Matcher

end ConceptLaws
