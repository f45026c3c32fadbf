import ConceptLaws.Proofs.Correspondence.Accounts
import ConceptLaws.Proofs.Correspondence.Deep
import ConceptLaws.Proofs.Relation.Additions

/-! Plans of branches.
A plan of a branch has a step for every node that is not mapped yet, parents first. What a step
refers to is there, or an earlier step leads to it. -/

namespace ConceptLaws

namespace Law

theorem walk_nil (law : Law) (steps : Nat) : law.walk steps [] = [] := by
  induction steps with
  | zero => rfl
  | succ steps ih => exact ih

theorem walk_add (law : Law) (first second : Nat) (ids : List LawNodeId) :
    law.walk (first + second) ids = law.walk second (law.walk first ids) := by
  induction first generalizing ids with
  | zero => rw [Nat.zero_add, walk]
  | succ first ih =>
    rw [Nat.succ_add]
    exact ih _

theorem mem_walk_mul {law : Law} {id : LawNodeId} {steps : Nat} (cycle : id ∈ law.walk steps [id])
    (times : Nat) : id ∈ law.walk (times * steps) [id] := by
  induction times with
  | zero => simp [walk]
  | succ times ih =>
    rw [Nat.succ_mul, Nat.add_comm, walk_add]
    have once : [id] ⊆ law.walk steps [id] := by simpa using cycle
    exact walk_subset (times * steps) once ih

theorem check_of_checkLaws {definition : Definition} {laws : List Law} :
    ∀ {taken : List LawId} {nodes : List LawNodeId},
      definition.checkLaws taken nodes laws = .ok () → ∀ law ∈ laws,
        law.check definition = .ok () := by
  induction laws with
  | nil => simp
  | cons first rest ih =>
    intro taken nodes passed
    unfold Definition.checkLaws at passed
    split at passed
    · cases passed
    split at passed
    · cases passed
    split at passed
    · cases passed
    rename_i checked
    exact List.forall_mem_cons.2 ⟨checked, ih passed⟩

end Law

namespace Catalog

variable {catalog : Catalog}

theorem Valid.check (valid : catalog.Valid) {law : Law} (listed : law ∈ catalog.laws) :
    law.check catalog.definition = .ok () := by
  obtain ⟨definition, made⟩ := valid
  unfold ofDefinition at made
  obtain ⟨⟨⟩, -, made⟩ := bind_eq_ok.1 made
  obtain ⟨lineages, -, made⟩ := bind_eq_ok.1 made
  obtain ⟨⟨⟩, laws, made⟩ := bind_eq_ok.1 made
  obtain rfl := Except.ok.inj made
  exact Law.check_of_checkLaws laws law listed

/-- Every node of a law has a concept of the catalog, and a data node has a head. -/
theorem Valid.checkNode (valid : catalog.Valid) {law : LawId} {id : LawNodeId} {node : LawNode}
    (found : catalog.lawNode? law id = some node) :
    (catalog.concept? node.concept).isNone = false ∧
      (node.isData = true → node.head ≠ none) := by
  obtain ⟨owner, listed, present⟩ := lawNode?_eq_some found
  have checked := valid.check (law?_eq_some listed).1
  unfold Law.check at checked
  obtain ⟨⟨⟩, all, -⟩ := bind_eq_ok.1 checked
  have passed := forM_eq_ok.1 all node (Law.node?_eq_some present).1
  unfold Law.checkNode at passed
  split at passed
  · cases passed
  rename_i known
  split at passed
  · cases passed
  split at passed
  · cases passed
  rename_i headed
  refine ⟨Bool.eq_false_iff.2 known, fun data rootless => headed ?_⟩
  simp [data, rootless]

/-- The conclusions of a law are nodes of it. -/
theorem Valid.exists_conclusion (valid : catalog.Valid) {law : LawId} {id : LawNodeId}
    (concluded : id ∈ catalog.conclusions law) :
    ∃ owner node, catalog.law? law = some owner ∧ owner.node? id = some node := by
  unfold Catalog.conclusions at concluded
  cases listed : catalog.law? law with
  | none => simp [listed] at concluded
  | some owner =>
    obtain ⟨member, -⟩ := law?_eq_some listed
    rw [listed, Option.map_some, Option.getD_some] at concluded
    unfold Law.conclusions at concluded
    split at concluded
    · obtain ⟨node, inLaw, rfl⟩ := List.mem_map.1 (List.mem_filter.1 concluded).1
      exact ⟨owner, node, rfl, valid.node? member inLaw⟩
    · have checked := valid.check member
      unfold Law.check at checked
      obtain ⟨⟨⟩, -, checked⟩ := bind_eq_ok.1 checked
      obtain ⟨⟨⟩, -, checked⟩ := bind_eq_ok.1 checked
      split at checked
      · cases checked
      obtain ⟨⟨⟩, -, checked⟩ := bind_eq_ok.1 checked
      unfold Law.checkDeepNodes at checked
      split at checked
      · cases checked
      rename_i named
      have known := List.find?_eq_none.1 named id (List.mem_filter.1 concluded).1
      obtain ⟨node, found⟩ : ∃ node, owner.node? id = some node := by
        simpa [Law.isNode, Option.ne_none_iff_exists'] using known
      exact ⟨owner, node, rfl, found⟩

theorem Needs.mem_walk {law : Law} (listed : catalog.law? law.id = some law) {start id : LawNodeId}
    (needs : catalog.Needs law.id start id) : ∃ steps, id ∈ law.walk steps [start] := by
  induction needs with
  | self => exact ⟨0, List.mem_singleton_self start⟩
  | @link middle parent node side _ found leads ih =>
    obtain ⟨steps, reached⟩ := ih
    refine ⟨steps + 1, ?_⟩
    have named : law.node? middle = some node := by simpa [Catalog.lawNode?, listed] using found
    rw [Law.walk_add]
    exact Law.mem_parentsOf.2 ⟨middle, reached, node, named, LawNode.mem_parents.2 ⟨side, leads⟩⟩

/-- No node is needed by what it links to. -/
theorem Valid.not_needs_of_parent (valid : catalog.Valid) {law : LawId} {id parent : LawNodeId}
    {node : LawNode} {side : Side} (found : catalog.lawNode? law id = some node)
    (leads : node.parent side = some parent) : ¬ catalog.Needs law parent id := by
  intro needs
  obtain ⟨owner, listed, present⟩ := lawNode?_eq_some found
  obtain ⟨member, rfl⟩ := law?_eq_some listed
  obtain ⟨inLaw, rfl⟩ := Law.node?_eq_some present
  obtain ⟨steps, reached⟩ := needs.mem_walk listed
  have cycle := Law.walk_above_subset steps present (LawNode.mem_parents.2 ⟨side, leads⟩) reached
  have again := Law.mem_walk_mul cycle (owner.nodes.length + 1)
  have far : (owner.nodes.length + 1) * (steps + 1) =
      owner.nodes.length + 1 + (owner.nodes.length + 1) * steps := by
    rw [Nat.mul_succ, Nat.add_comm]
  have ends := (valid.distinct.valid owner member).acyclic node inLaw
  rw [far, Law.walk_add, ends, Law.walk_nil] at again
  exact absurd again List.not_mem_nil

end Catalog

/-! ## Steps of a plan -/

/-- The node that a step is about. -/
def BranchStep.node : BranchStep → LawNodeId
  | reuse node _ => node
  | create node _ _ => node
  | formula node _ => node

theorem getElem?_of_begun {α : Type} {first second : List α} (kept : first <+: second) {index : Nat}
    {item : α} (held : first[index]? = some item) : second[index]? = some item := by
  obtain ⟨rest, rfl⟩ := kept
  obtain ⟨within, -⟩ := List.getElem?_eq_some_iff.1 held
  rw [List.getElem?_append_left within]
  exact held

/-- What the slot stands for is there, or one of the steps makes it. -/
def BranchSlot.Known (relation : Relation) (steps : List BranchStep) : BranchSlot → Prop
  | entity id => relation.contains id = true
  | planned step => ∃ id head reference, steps[step]? = some (.create id head reference)

theorem BranchSlot.Known.mono {relation : Relation} {steps more : List BranchStep}
    {slot : BranchSlot} (known : slot.Known relation steps) (kept : steps <+: more) :
    slot.Known relation more := by
  cases slot with
  | entity id => exact known
  | planned step =>
    obtain ⟨id, head, reference, place⟩ := known
    exact ⟨id, head, reference, getElem?_of_begun kept place⟩

/-- The step can be applied after others. An entity is made only where none can stand for the node.
-/
inductive BranchStep.Fits (relation : Relation) (catalog : Catalog) (law : LawId)
    (before : List BranchStep) : BranchStep → Prop
  | reuse {id : LawNodeId} {entity : EntityId} {node : LawNode}
      (named : catalog.lawNode? law id = some node) (present : relation.contains entity = true) :
      Fits relation catalog law before (.reuse id entity)
  | create {id : LawNodeId} {head reference : Option BranchSlot} {node : LawNode}
      (named : catalog.lawNode? law id = some node)
      (missing : relation.existingChild? node head reference = none)
      (headed : ∀ slot ∈ head, slot.Known relation before)
      (referred : ∀ slot ∈ reference, slot.Known relation before)
      (needed : reference = none ↔ node.reference = none) :
      Fits relation catalog law before (.create id head reference)
  | formula {id : LawNodeId} {owner : BranchSlot} {node : LawNode}
      (named : catalog.lawNode? law id = some node) (data : node.isData = true)
      (owned : owner.Known relation before) :
      Fits relation catalog law before (.formula id owner)

theorem BranchStep.Fits.exists_node {relation : Relation} {catalog : Catalog} {law : LawId}
    {before : List BranchStep} {step : BranchStep} (fits : step.Fits relation catalog law before) :
    ∃ node, catalog.lawNode? law step.node = some node := by
  cases fits with
  | reuse named present => exact ⟨_, named⟩
  | create named missing headed referred needed => exact ⟨_, named⟩
  | formula named data owned => exact ⟨_, named⟩

/-- All steps can be applied one after the other, and none is about a node that is mapped or that
another one is about. -/
structure BranchPlan.Laid (plan : BranchPlan) (map : Correspondence) (relation : Relation)
    (catalog : Catalog) : Prop where
  steps : ∀ (index : Nat) (step : BranchStep), plan.steps[index]? = some step →
    step.Fits relation catalog map.law (plan.steps.take index)
  slots : ∀ (id : LawNodeId) (slot : BranchSlot), plan.slots[id]? = some slot →
    slot.Known relation plan.steps
  distinct : (plan.steps.map BranchStep.node).Nodup
  noted : ∀ step ∈ plan.steps, step.node ∈ plan.slots
  unmapped : ∀ step ∈ plan.steps, map.entityOf[step.node]? = none

namespace Correspondence

variable {map : Correspondence} {relation : Relation} {catalog : Catalog}

theorem laid_empty (map : Correspondence) (relation : Relation) (catalog : Catalog) :
    BranchPlan.empty.Laid map relation catalog := by
  constructor
  all_goals simp [BranchPlan.empty]

/-- A step is laid after the others. -/
theorem laid_add {plan : BranchPlan} (laid : plan.Laid map relation catalog) {id : LawNodeId}
    {step : BranchStep} {slot : BranchSlot} (about : step.node = id)
    (fits : step.Fits relation catalog map.law plan.steps)
    (known : slot.Known relation (plan.steps ++ [step])) (new : id ∉ plan.slots)
    (unmapped : map.entityOf[id]? = none) : (plan.add id step slot).2.Laid map relation catalog := by
  subst about
  unfold BranchPlan.add
  refine ⟨fun index other listed => ?_, fun id other held => ?_, ?_, fun other listed => ?_,
    fun other listed => ?_⟩
  · dsimp only at listed
    rcases Nat.lt_trichotomy index plan.steps.length with before | rfl | after
    · rw [List.getElem?_append_left before] at listed
      rw [List.take_append_of_le_length (Nat.le_of_lt before)]
      exact laid.steps index other listed
    · rw [List.getElem?_concat_length] at listed
      obtain rfl := Option.some.inj listed
      rw [List.take_left]
      exact fits
    · rw [List.getElem?_eq_none (by simp; omega)] at listed
      cases listed
  · dsimp only at held ⊢
    rw [Std.ExtTreeMap.getElem?_insert] at held
    split at held
    · obtain rfl := Option.some.inj held
      exact known
    · exact (laid.slots id other held).mono (List.prefix_append _ _)
  · rw [List.map_append, List.nodup_append]
    refine ⟨laid.distinct, List.nodup_singleton _, ?_⟩
    intro first old second last same
    obtain ⟨other, listed, rfl⟩ := List.mem_map.1 old
    rw [List.map_singleton, List.mem_singleton] at last
    exact new (last ▸ same ▸ laid.noted other listed)
  · rw [Std.ExtTreeMap.mem_insert]
    rcases List.mem_append.1 listed with old | last
    · exact Or.inr (laid.noted other old)
    · rw [List.mem_singleton.1 last]
      exact Or.inl Std.ReflCmp.compare_self
  · rcases List.mem_append.1 listed with old | last
    · exact laid.unmapped other old
    · rw [List.mem_singleton.1 last]
      exact unmapped

/-- A node is planned already, or mapped, or its parents are planned and then the node. -/
theorem planNode_succ {depth : Nat} {plan later : BranchPlan} {id : LawNodeId} {slot : BranchSlot}
    (planned : map.planNode relation catalog (depth + 1) plan id = some (slot, later)) :
    (plan.slots[id]? = some slot ∧ later = plan) ∨
      (plan.slots[id]? = none ∧ ∃ entity, (map.entityOf[id]? = some entity ∨
          map.entityOf[id]? = none ∧ ∃ formula, map.formulas[id]? = some formula ∧
            formula.owner = entity) ∧
        relation.contains entity = true ∧ slot = .entity entity ∧ later = plan) ∨
      (plan.slots[id]? = none ∧ map.entityOf[id]? = none ∧ map.formulas[id]? = none ∧
        ∃ node head above reference before, catalog.lawNode? map.law id = some node ∧
          planParent? (map.planNode relation catalog depth) plan node.head = some (head, above) ∧
          planParent? (map.planNode relation catalog depth) above node.reference =
            some (reference, before) ∧
          addNode? relation before node head reference = some (slot, later)) := by
  have present {entity : EntityId}
      (mapped : (slotOf? relation entity).map (fun slot => (slot, plan)) = some (slot, later)) :
      relation.contains entity = true ∧ slot = .entity entity ∧ later = plan := by
    unfold slotOf? at mapped
    split at mapped
    · rename_i there
      obtain ⟨rfl, rfl⟩ := Prod.mk.inj (Option.some.inj mapped)
      exact ⟨there, rfl, rfl⟩
    · cases mapped
  unfold planNode at planned
  split at planned
  · rename_i held
    obtain ⟨rfl, rfl⟩ := Prod.mk.inj (Option.some.inj planned)
    exact Or.inl ⟨held, rfl⟩
  · rename_i entity open_ mapped
    exact Or.inr (Or.inl ⟨open_, entity, Or.inl mapped, present planned⟩)
  · rename_i formula open_ unmapped owned
    exact Or.inr (Or.inl ⟨open_, formula.owner, Or.inr ⟨unmapped, formula, owned, rfl⟩,
      present planned⟩)
  · rename_i open_ unmapped unowned
    simp only [Option.bind_eq_bind, Option.bind_eq_some_iff] at planned
    obtain ⟨node, named, ⟨head, above⟩, headed, ⟨reference, before⟩, referred, added⟩ := planned
    exact Or.inr (Or.inr ⟨open_, unmapped, unowned, node, head, above, reference, before, named,
      headed, referred, added⟩)

/-- A plan is extended by steps for nodes that a node needs. -/
structure Lays (map : Correspondence) (relation : Relation) (catalog : Catalog) (id : LawNodeId)
    (plan later : BranchPlan) : Prop where
  laid : later.Laid map relation catalog
  kept : plan.steps <+: later.steps
  needed : ∀ node, node ∈ later.slots → node ∈ plan.slots ∨ catalog.Needs map.law id node

theorem Lays.trans {id : LawNodeId} {first second third : BranchPlan}
    (earlier : map.Lays relation catalog id first second)
    (later : map.Lays relation catalog id second third) :
    map.Lays relation catalog id first third where
  laid := later.laid
  kept := earlier.kept.trans later.kept
  needed := fun node listed => (later.needed node listed).elim (earlier.needed node) Or.inr

theorem lays_refl {plan : BranchPlan} (laid : plan.Laid map relation catalog) (id : LawNodeId) :
    map.Lays relation catalog id plan plan :=
  ⟨laid, List.prefix_refl _, fun _ listed => Or.inl listed⟩

theorem lays_planParent? {planNode : BranchPlan → LawNodeId → Option (BranchSlot × BranchPlan)}
    (lays : ∀ {plan later : BranchPlan} {id : LawNodeId} {slot : BranchSlot},
      plan.Laid map relation catalog → planNode plan id = some (slot, later) →
        map.Lays relation catalog id plan later ∧ slot.Known relation later.steps)
    {plan later : BranchPlan} (laid : plan.Laid map relation catalog) {id : LawNodeId}
    {node : LawNode} (named : catalog.lawNode? map.law id = some node) (side : Side)
    {slot : Option BranchSlot}
    (planned : planParent? planNode plan (node.parent side) = some (slot, later)) :
    map.Lays relation catalog id plan later ∧
      (∀ known ∈ slot, known.Known relation later.steps) ∧
      (slot = none ↔ node.parent side = none) ∧ (id ∉ plan.slots → catalog.Valid → id ∉ later.slots) := by
  unfold planParent? at planned
  split at planned
  · rename_i rootless
    obtain ⟨rfl, rfl⟩ := Prod.mk.inj (Option.some.inj planned)
    exact ⟨lays_refl laid id, by simp, by simp [rootless], fun new _ => new⟩
  · rename_i parent leads
    obtain ⟨⟨found, after⟩, done, same⟩ := Option.map_eq_some_iff.1 planned
    obtain ⟨rfl, rfl⟩ := Prod.mk.inj same
    obtain ⟨above, known⟩ := lays laid done
    have needs : catalog.Needs map.law id parent := .above named leads
    refine ⟨⟨above.laid, above.kept, fun other listed => (above.needed other listed).imp_right
      needs.trans⟩, by simpa using known, by simp [leads], fun new valid listed => ?_⟩
    exact (above.needed id listed).elim new (valid.not_needs_of_parent named leads)

theorem lays_addNode? {plan later : BranchPlan} (laid : plan.Laid map relation catalog)
    (named_ : relation.Named) {id : LawNodeId} {node : LawNode}
    (named : catalog.lawNode? map.law id = some node) (new : id ∉ plan.slots)
    (unmapped : map.entityOf[id]? = none) {head reference : Option BranchSlot} {slot : BranchSlot}
    (headed : ∀ slot ∈ head, slot.Known relation plan.steps)
    (referred : ∀ slot ∈ reference, slot.Known relation plan.steps)
    (needed : reference = none ↔ node.reference = none)
    (added : addNode? relation plan node head reference = some (slot, later)) :
    map.Lays relation catalog id plan later ∧ slot.Known relation later.steps := by
  obtain ⟨owner, listed, present⟩ := Catalog.lawNode?_eq_some named
  obtain ⟨-, rfl⟩ := Law.node?_eq_some present
  have lays {step : BranchStep} {slot : BranchSlot} (about : step.node = node.id)
      (fits : step.Fits relation catalog map.law plan.steps)
      (known : slot.Known relation (plan.steps ++ [step])) :
      map.Lays relation catalog node.id plan (plan.add node.id step slot).2 ∧
        slot.Known relation (plan.add node.id step slot).2.steps := by
    refine ⟨⟨laid_add laid about fits known new unmapped, List.prefix_append _ _,
      fun other held => ?_⟩, known⟩
    · rcases Std.ExtTreeMap.mem_insert.1 held with same | old
      · rw [← Std.compare_eq_iff_eq.1 same]
        exact Or.inr .self
      · exact Or.inl old
  unfold addNode? at added
  split at added
  · rename_i data
    obtain ⟨owner, rfl, same⟩ := Option.map_eq_some_iff.1 added
    obtain ⟨rfl, rfl⟩ := Prod.mk.inj same
    have owned := headed owner rfl
    exact lays rfl (.formula named data owned) (owned.mono (List.prefix_append _ _))
  · split at added
    · rename_i entity found
      obtain ⟨rfl, rfl⟩ := Prod.mk.inj (Option.some.inj added)
      have there := Relation.contains_existingChild? named_ found
      exact lays rfl (.reuse named there) there
    · rename_i missing
      obtain ⟨rfl, rfl⟩ := Prod.mk.inj (Option.some.inj added)
      exact lays rfl (.create named missing headed referred needed)
        ⟨_, _, _, List.getElem?_concat_length⟩

/-- By induction on the links that may be followed: the parents are laid before the node. -/
theorem lays_planNode (valid : catalog.Valid) (named_ : relation.Named) (depth : Nat) :
    ∀ {plan later : BranchPlan} {id : LawNodeId} {slot : BranchSlot},
      plan.Laid map relation catalog →
      map.planNode relation catalog depth plan id = some (slot, later) →
        map.Lays relation catalog id plan later ∧ slot.Known relation later.steps := by
  induction depth with
  | zero =>
    intro plan later id slot _ planned
    cases planned
  | succ depth ih =>
    intro plan later id slot laid planned
    rcases planNode_succ planned with ⟨held, rfl⟩ | ⟨-, entity, -, present, rfl, rfl⟩ |
      ⟨open_, unmapped, -, node, head, above, reference, before, named, headed, referred, added⟩
    · exact ⟨lays_refl laid id, laid.slots id slot held⟩
    · exact ⟨lays_refl laid id, present⟩
    · have new : id ∉ plan.slots := by
        rw [Std.ExtTreeMap.mem_iff_isSome_getElem?, open_]
        simp
      obtain ⟨laysAbove, knownHead, -, newAbove⟩ := lays_planParent? ih laid named .head headed
      obtain ⟨laysBefore, knownReference, needed, newBefore⟩ := lays_planParent? ih laysAbove.laid
        named .reference referred
      obtain ⟨lays, known⟩ := lays_addNode? laysBefore.laid named_ named
        (newBefore (newAbove new valid) valid) unmapped
        (fun slot member => (knownHead slot member).mono laysBefore.kept) knownReference
        needed added
      exact ⟨(laysAbove.trans laysBefore).trans lays, known⟩

/-- The entities that are mapped and the owners of formulas are there. -/
structure Within (map : Correspondence) (relation : Relation) : Prop where
  mapped : ∀ (node : LawNodeId) (entity : EntityId), map.entityOf[node]? = some entity →
    relation.contains entity = true
  owned : ∀ (node : LawNodeId) (formula : Formula), map.formulas[node]? = some formula →
    relation.contains formula.owner = true

/-- Nothing stands in the way of a plan: the links that may be followed are enough, by induction on
their number. -/
theorem exists_planNode (valid : catalog.Valid) (within : map.Within relation) {law : Law}
    (listed : catalog.law? map.law = some law) (depth : Nat) :
    ∀ (plan : BranchPlan) {id : LawNodeId} {node : LawNode}, law.node? id = some node →
      law.walk depth [id] = [] →
        ∃ result, map.planNode relation catalog depth plan id = some result := by
  induction depth with
  | zero =>
    intro plan id node _ short
    cases short
  | succ depth ih =>
    intro plan id node found short
    obtain ⟨inLaw, -⟩ := Law.node?_eq_some found
    obtain ⟨member, -⟩ := Catalog.law?_eq_some listed
    have named : catalog.lawNode? map.law id = some node := by
      simpa [Catalog.lawNode?, listed] using found
    have parents (plan : BranchPlan) (side : Side) : ∃ slot later,
        planParent? (map.planNode relation catalog depth) plan (node.parent side) =
          some (slot, later) ∧ (slot = none → node.parent side = none) := by
      cases leads : node.parent side with
      | none => exact ⟨none, plan, rfl, fun _ => rfl⟩
      | some parent =>
        have above := LawNode.mem_parents.2 ⟨side, leads⟩
        obtain ⟨parentNode, parentFound⟩ := Option.isSome_iff_exists.1
          ((valid.distinct.valid law member).linked node inLaw parent above)
        have fewer := Law.walk_above_subset depth found above
        rw [short] at fewer
        have shorter := List.eq_nil_of_subset_nil fewer
        obtain ⟨⟨slot, later⟩, planned⟩ := ih plan parentFound shorter
        exact ⟨some slot, later, by simp [planParent?, planned], by simp⟩
    have there {entity : EntityId} (present : relation.contains entity = true) :
        ∃ result, (slotOf? relation entity).map (fun slot => (slot, plan)) = some result := by
      simp [slotOf?, present]
    unfold planNode
    split
    · exact ⟨_, rfl⟩
    · rename_i entity _ mapped
      exact there (within.mapped id entity mapped)
    · rename_i formula _ _ owned
      exact there (within.owned id formula owned)
    · obtain ⟨head, above, headed, rootless⟩ := parents plan .head
      obtain ⟨reference, before, referred, -⟩ := parents above .reference
      have headedToo : planParent? (map.planNode relation catalog depth) plan node.head =
        some (head, above) := headed
      have referredToo : planParent? (map.planNode relation catalog depth) above node.reference =
        some (reference, before) := referred
      simp only [named, headedToo, referredToo, Option.bind_eq_bind, Option.bind_some]
      unfold addNode?
      split
      · rename_i data
        cases head with
        | none => exact absurd (rootless rfl) ((valid.checkNode named).2 data)
        | some owner => exact ⟨_, rfl⟩
      · split
        · exact ⟨_, rfl⟩
        · exact ⟨_, rfl⟩

/-- Every conclusion of a law has a plan. -/
theorem exists_planBranch? (valid : catalog.Valid) (within : map.Within relation) {id : LawNodeId}
    (concluded : id ∈ catalog.conclusions map.law) :
    ∃ slot plan, map.planBranch? relation catalog id = some (slot, plan) := by
  obtain ⟨law, node, listed, found⟩ := valid.exists_conclusion concluded
  obtain ⟨member, -⟩ := Catalog.law?_eq_some listed
  obtain ⟨inLaw, rfl⟩ := Law.node?_eq_some found
  have deep : map.planDepth catalog = law.nodes.length + 1 := by simp [planDepth, listed]
  have short := (valid.distinct.valid law member).acyclic node inLaw
  obtain ⟨⟨slot, plan⟩, planned⟩ :=
    exists_planNode valid within listed (law.nodes.length + 1) .empty found short
  refine ⟨slot, plan, ?_⟩
  unfold planBranch?
  rw [deep]
  exact planned

/-- The plan of a branch is laid. -/
theorem laid_planBranch? (valid : catalog.Valid) (named : relation.Named) {id : LawNodeId}
    {plan : BranchPlan} {slot : BranchSlot}
    (planned : map.planBranch? relation catalog id = some (slot, plan)) :
    plan.Laid map relation catalog :=
  (lays_planNode valid named _ (laid_empty map relation catalog) planned).1.laid

end Correspondence

namespace BranchPlan

variable {map : Correspondence} {relation : Relation} {catalog : Catalog} {plan : BranchPlan}

/-- A plan has at most as many steps as its law has nodes. -/
theorem Laid.length_le (laid : plan.Laid map relation catalog) {law : Law}
    (listed : catalog.law? map.law = some law) : plan.steps.length ≤ law.nodes.length := by
  have among : plan.steps.map BranchStep.node ⊆ law.nodes.map LawNode.id := by
    intro id member
    obtain ⟨step, planned, rfl⟩ := List.mem_map.1 member
    obtain ⟨index, place⟩ := List.mem_iff_getElem?.1 planned
    obtain ⟨node, named⟩ := (laid.steps index step place).exists_node
    have found : law.node? step.node = some node := by
      simpa [Catalog.lawNode?, listed] using named
    obtain ⟨inLaw, same⟩ := Law.node?_eq_some found
    exact same ▸ List.mem_map_of_mem inLaw
  have fewer := (List.subperm_of_subset laid.distinct among).length_le
  simpa using fewer

end BranchPlan

end ConceptLaws
