import ConceptLaws.Proofs.Correspondence.Formulas

/-! Why a plan has its slots.
The slot of a node is explained by the correspondence, which maps the node or has a formula for it,
or by a step of the plan and the slots of the parents. What was explained stays so while steps are
added. -/

namespace ConceptLaws

namespace LawNode

/-- What the node has on a side: one value for each parent. -/
def along {α : Type} (node : LawNode) (values : Side → α) (side : Side) : Option α :=
  (node.parent side).map fun _ => values side

theorem along_of_parent {α : Type} {node : LawNode} {side : Side} {parent : LawNodeId}
    (leads : node.parent side = some parent) (values : Side → α) :
    node.along values side = some (values side) := by
  unfold along
  rw [leads]
  rfl

theorem along_congr {α : Type} {node : LawNode} {values others : Side → α}
    (same : ∀ side parent, node.parent side = some parent → values side = others side)
    (side : Side) : node.along values side = node.along others side := by
  unfold along
  cases leads : node.parent side with
  | none => rfl
  | some parent => exact congrArg some (same side parent leads)

theorem map_along {α β : Type} (node : LawNode) (change : α → β) (values : Side → α) (side : Side) :
    node.along (fun side => change (values side)) side = (node.along values side).map change := by
  unfold along
  rw [Option.map_map]
  rfl

end LawNode

namespace Correspondence

/-- The node is still to be planned: it is neither mapped nor the node of a formula. -/
structure Lacks (map : Correspondence) (catalog : Catalog) (id : LawNodeId) (node : LawNode) :
    Prop where
  unmapped : map.entityOf[id]? = none
  unowned : map.formulas[id]? = none
  named : catalog.lawNode? map.law id = some node

/-- Why the slot of a node is what it is. -/
inductive Explains (map : Correspondence) (relation : Relation) (catalog : Catalog)
    (steps : List BranchStep) : LawNodeId → BranchSlot → Prop
  | mapped {id : LawNodeId} {entity : EntityId} (held : map.entityOf[id]? = some entity)
      (present : relation.contains entity = true) :
      Explains map relation catalog steps id (.entity entity)
  | owned {id : LawNodeId} {formula : Formula} (unmapped : map.entityOf[id]? = none)
      (held : map.formulas[id]? = some formula) (present : relation.contains formula.owner = true) :
      Explains map relation catalog steps id (.entity formula.owner)
  | formula {id head : LawNodeId} {node : LawNode} {owner : BranchSlot}
      (lacks : map.Lacks catalog id node) (data : node.isData = true)
      (leads : node.head = some head) (above : Explains map relation catalog steps head owner)
      (listed : .formula id owner ∈ steps) : Explains map relation catalog steps id owner
  | reuse {id : LawNodeId} {node : LawNode} {slots : Side → BranchSlot} {entity : EntityId}
      (lacks : map.Lacks catalog id node) (plain : node.isData = false)
      (above : ∀ side parent, node.parent side = some parent →
        Explains map relation catalog steps parent (slots side))
      (found : relation.existingChild? node (node.along slots .head) (node.along slots .reference) =
        some entity)
      (listed : .reuse id entity ∈ steps) : Explains map relation catalog steps id (.entity entity)
  | create {id : LawNodeId} {node : LawNode} {slots : Side → BranchSlot} {index : Nat}
      (lacks : map.Lacks catalog id node) (plain : node.isData = false)
      (above : ∀ side parent, node.parent side = some parent →
        Explains map relation catalog steps parent (slots side))
      (missing : relation.existingChild? node (node.along slots .head)
        (node.along slots .reference) = none)
      (place : steps[index]? =
        some (.create id (node.along slots .head) (node.along slots .reference))) :
      Explains map relation catalog steps id (.planned index)

variable {map : Correspondence} {relation : Relation} {catalog : Catalog}
  {steps more : List BranchStep} {id : LawNodeId} {slot : BranchSlot}

theorem Explains.mono (explains : map.Explains relation catalog steps id slot)
    (kept : steps <+: more) : map.Explains relation catalog more id slot := by
  induction explains with
  | mapped held present => exact .mapped held present
  | owned unmapped held present => exact .owned unmapped held present
  | formula lacks data leads _ listed ih => exact .formula lacks data leads ih (kept.subset listed)
  | reuse lacks plain _ found listed ih => exact .reuse lacks plain ih found (kept.subset listed)
  | create lacks plain _ missing place ih =>
    exact .create lacks plain ih missing (getElem?_of_begun kept place)

/-! ## Planning -/

/-- All slots of a plan are explained by its steps, which are about nodes that were to be planned. -/
structure Explained (map : Correspondence) (relation : Relation) (catalog : Catalog)
    (plan : BranchPlan) : Prop where
  slots : ∀ (id : LawNodeId) (slot : BranchSlot), plan.slots[id]? = some slot →
    map.Explains relation catalog plan.steps id slot
  lacks : ∀ step ∈ plan.steps, ∃ node, map.Lacks catalog step.node node

theorem explained_empty (map : Correspondence) (relation : Relation) (catalog : Catalog) :
    map.Explained relation catalog .empty := by
  constructor
  all_goals simp [BranchPlan.empty]

/-- A plan goes on to where the slot of a node is explained. -/
structure Clarifies (map : Correspondence) (relation : Relation) (catalog : Catalog)
    (plan later : BranchPlan) (id : LawNodeId) (slot : BranchSlot) : Prop where
  explained : map.Explained relation catalog later
  kept : plan.steps <+: later.steps
  slot : map.Explains relation catalog later.steps id slot

variable {plan later : BranchPlan}

theorem clarifies_add (explained : map.Explained relation catalog plan) {node : LawNode}
    (lacks : map.Lacks catalog id node) {step : BranchStep} (about : step.node = id)
    (explains : map.Explains relation catalog (plan.steps ++ [step]) id slot) :
    map.Clarifies relation catalog plan (plan.add id step slot).2 id slot := by
  have kept : plan.steps <+: plan.steps ++ [step] := List.prefix_append _ _
  refine ⟨⟨fun other there held => ?_, fun other listed => ?_⟩, kept, explains⟩
  · change (plan.slots.insert id slot)[other]? = some there at held
    change map.Explains relation catalog (plan.steps ++ [step]) other there
    rw [Std.ExtTreeMap.getElem?_insert] at held
    split at held
    · rename_i same
      obtain rfl := Std.compare_eq_iff_eq.1 same
      obtain rfl := Option.some.inj held
      exact explains
    · exact (explained.slots other there held).mono kept
  · rcases List.mem_append.1 listed with old | new
    · exact explained.lacks other old
    · rw [List.mem_singleton.1 new, about]
      exact ⟨node, lacks⟩

/-- The slots on both sides, once the parents are planned. -/
theorem clarifies_parent {planNode : BranchPlan → LawNodeId → Option (BranchSlot × BranchPlan)}
    (clarifies : ∀ {plan later : BranchPlan} {id : LawNodeId} {slot : BranchSlot},
      map.Explained relation catalog plan → planNode plan id = some (slot, later) →
        map.Clarifies relation catalog plan later id slot)
    (explained : map.Explained relation catalog plan) {parent : Option LawNodeId}
    {found : Option BranchSlot} (planned : planParent? planNode plan parent = some (found, later)) :
    map.Explained relation catalog later ∧ plan.steps <+: later.steps ∧
      ∃ slot, found = parent.map (fun _ => slot) ∧ ∀ above, parent = some above →
        map.Explains relation catalog later.steps above slot := by
  unfold planParent? at planned
  split at planned
  · obtain ⟨rfl, rfl⟩ := Prod.mk.inj (Option.some.inj planned)
    exact ⟨explained, List.prefix_refl _, .planned 0, rfl, fun above leads => by cases leads⟩
  · obtain ⟨⟨slot, after⟩, done, same⟩ := Option.map_eq_some_iff.1 planned
    obtain ⟨rfl, rfl⟩ := Prod.mk.inj same
    have here := clarifies explained done
    refine ⟨here.explained, here.kept, slot, rfl, fun above leads => ?_⟩
    rw [← Option.some.inj leads]
    exact here.slot

theorem clarifies_addNode? (explained : map.Explained relation catalog plan) {node : LawNode}
    (lacks : map.Lacks catalog node.id node) {slots : Side → BranchSlot}
    (above : ∀ side parent, node.parent side = some parent →
      map.Explains relation catalog plan.steps parent (slots side))
    (added : addNode? relation plan node (node.along slots .head) (node.along slots .reference) =
      some (slot, later)) : map.Clarifies relation catalog plan later node.id slot := by
  have further {step : BranchStep} (side : Side) (parent : LawNodeId)
      (leads : node.parent side = some parent) :
      map.Explains relation catalog (plan.steps ++ [step]) parent (slots side) :=
    (above side parent leads).mono (List.prefix_append _ _)
  have last (step : BranchStep) : step ∈ plan.steps ++ [step] := by simp
  unfold addNode? at added
  split at added
  · rename_i data
    obtain ⟨owner, headed, same⟩ := Option.map_eq_some_iff.1 added
    obtain ⟨rfl, rfl⟩ := Prod.mk.inj same
    obtain ⟨head, leads, rfl⟩ := Option.map_eq_some_iff.1 headed
    exact clarifies_add explained lacks rfl
      (.formula lacks data leads (further .head head leads) (last _))
  · rename_i plain
    have plain := Bool.eq_false_iff.2 plain
    split at added
    · rename_i entity found
      obtain ⟨rfl, rfl⟩ := Prod.mk.inj (Option.some.inj added)
      exact clarifies_add explained lacks rfl (.reuse lacks plain further found (last _))
    · rename_i missing
      obtain ⟨rfl, rfl⟩ := Prod.mk.inj (Option.some.inj added)
      exact clarifies_add explained lacks rfl
        (.create lacks plain further missing List.getElem?_concat_length)

/-- By induction on the links that may be followed: the parents are explained before the node. -/
theorem clarifies_planNode (depth : Nat) :
    ∀ {plan later : BranchPlan} {id : LawNodeId} {slot : BranchSlot},
      map.Explained relation catalog plan →
      map.planNode relation catalog depth plan id = some (slot, later) →
        map.Clarifies relation catalog plan later id slot := by
  induction depth with
  | zero =>
    intro plan later id slot _ planned
    cases planned
  | succ depth ih =>
    intro plan later id slot explained planned
    rcases planNode_succ planned with ⟨held, rfl⟩ | ⟨-, entity, source, present, rfl, rfl⟩ |
      ⟨-, unmapped, unowned, node, head, between, reference, before, named, headed, referred, added⟩
    · exact ⟨explained, List.prefix_refl _, explained.slots id slot held⟩
    · refine ⟨explained, List.prefix_refl _, ?_⟩
      rcases source with mapped | ⟨unmapped, formula, held, rfl⟩
      · exact .mapped mapped present
      · exact .owned unmapped held present
    · obtain ⟨explainedHead, keptHead, headSlot, rfl, aboveHead⟩ :=
        clarifies_parent ih explained headed
      obtain ⟨explainedBoth, keptBoth, referenceSlot, rfl, aboveReference⟩ :=
        clarifies_parent ih explainedHead referred
      obtain ⟨_, -, listed⟩ := Catalog.lawNode?_eq_some named
      obtain ⟨-, rfl⟩ := Law.node?_eq_some listed
      let slots : Side → BranchSlot := Side.rec headSlot referenceSlot
      have above (side : Side) (parent : LawNodeId) (leads : node.parent side = some parent) :
          map.Explains relation catalog before.steps parent (slots side) := by
        cases side with
        | head => exact (aboveHead parent leads).mono keptBoth
        | reference => exact aboveReference parent leads
      have adds : addNode? relation before node (node.along slots .head)
          (node.along slots .reference) = some (slot, later) := added
      have here := clarifies_addNode? explainedBoth ⟨unmapped, unowned, named⟩ above adds
      exact ⟨here.explained, (keptHead.trans keptBoth).trans here.kept, here.slot⟩

/-- The plan of a branch is explained, and so is what it leads to. -/
theorem explained_planBranch? (planned : map.planBranch? relation catalog id = some (slot, plan)) :
    map.Explained relation catalog plan ∧ map.Explains relation catalog plan.steps id slot := by
  have clarifies := clarifies_planNode _ (explained_empty map relation catalog) planned
  exact ⟨clarifies.explained, clarifies.slot⟩

end Correspondence

end ConceptLaws
