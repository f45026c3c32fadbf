import ConceptLaws.Proofs.Correspondence.BranchRuns

/-! Plans that are planned again.
After a plan was applied, planning the branch again from the same pairs finds for every new entity
the entity that was made, provided that this is the first that can stand for its node. -/

namespace ConceptLaws

/-! ## What plans depend on -/

namespace Correspondence

/-- The same law, pairs and formulas; plans depend on nothing else. -/
structure Coincides (map other : Correspondence) : Prop where
  law : other.law = map.law
  nodeOf : other.nodeOf = map.nodeOf
  entityOf : other.entityOf = map.entityOf
  formulas : other.formulas = map.formulas

theorem Coincides.symm {map other : Correspondence} (same : map.Coincides other) :
    other.Coincides map :=
  ⟨same.law.symm, same.nodeOf.symm, same.entityOf.symm, same.formulas.symm⟩

variable {map other : Correspondence} {relation : Relation} {catalog : Catalog}

theorem Coincides.planNode (same : map.Coincides other) (depth : Nat) :
    ∀ (plan : BranchPlan) (id : LawNodeId),
      other.planNode relation catalog depth plan id = map.planNode relation catalog depth plan id := by
  induction depth with
  | zero => exact fun _ _ => rfl
  | succ depth ih =>
    intro plan id
    have again : other.planNode relation catalog depth = map.planNode relation catalog depth := by
      funext plan id
      exact ih plan id
    unfold Correspondence.planNode
    rw [same.law, same.entityOf, same.formulas, again]

theorem Coincides.planBranch? (same : map.Coincides other) (id : LawNodeId) :
    other.planBranch? relation catalog id = map.planBranch? relation catalog id := by
  unfold Correspondence.planBranch? planDepth
  rw [same.law]
  exact same.planNode _ _ _

theorem Coincides.record (same : map.Coincides other) (pair : Pair) :
    (map.record pair).Coincides (other.record pair) := by
  unfold Correspondence.record
  rw [same.nodeOf, same.entityOf]
  split
  · exact ⟨same.law, rfl, rfl, same.formulas⟩
  · exact same

theorem Coincides.adopt (same : map.Coincides other) (pairs : List Pair)
    (formulas : List (LawNodeId × Formula)) :
    (map.adopt pairs formulas).Coincides (other.adopt pairs formulas) := by
  have recorded : (pairs.foldl Correspondence.record map).Coincides
      (pairs.foldl Correspondence.record other) := by
    induction pairs generalizing map other with
    | nil => exact same
    | cons first rest ih => exact ih (same.record first)
  unfold Correspondence.adopt
  exact ⟨recorded.law, recorded.nodeOf, recorded.entityOf, by simp [recorded.formulas]⟩

end Correspondence

/-! ## Steps that make nothing -/

/-- The step makes no entity, and what it refers to is there. -/
def BranchStep.Idle (catalog : Catalog) (law : LawId) : BranchStep → Prop
  | reuse _ _ => True
  | create _ _ _ => False
  | formula node owner => (∃ entity, owner = .entity entity) ∧
      (catalog.lawNode? law node >>= LawNode.formula).isSome = true

theorem BranchProgress.run_idle {catalog : Catalog} {map : Correspondence} {steps : List BranchStep}
    (idle : ∀ step ∈ steps, step.Idle catalog map.law) (progress : BranchProgress) :
    ∃ later, progress.run catalog map steps = (true, later) ∧
      later.relation = progress.relation ∧ later.created = progress.created ∧
      later.formulas = progress.formulas ++
        steps.filterMap (BranchStep.inferred? catalog map.law) := by
  induction steps generalizing progress with
  | nil => exact ⟨progress, rfl, rfl, rfl, (List.append_nil _).symm⟩
  | cons first rest ih =>
    have later := fun progress => ih (fun step member => idle step (List.mem_cons_of_mem _ member))
      progress
    have here := idle first List.mem_cons_self
    unfold run
    cases first with
    | reuse node entity => exact later (progress.done entity)
    | create node head reference => exact here.elim
    | formula node owner =>
      obtain ⟨⟨entity, rfl⟩, written⟩ := here
      obtain ⟨source, named⟩ := Option.isSome_iff_exists.1 written
      have inferred : BranchStep.inferred? catalog map.law (.formula node (.entity entity)) =
          some (node, ⟨entity, source⟩) := by
        simp [BranchStep.inferred?, named]
      have stepped : progress.step catalog map (.formula node (.entity entity)) =
          (true, { progress.done entity with
            formulas := progress.formulas ++ [(node, ⟨entity, source⟩)] }) := by
        simp [BranchProgress.step, resolve?, named]
      have joined := List.append_cons progress.formulas (node, (⟨entity, source⟩ : Formula))
        (rest.filterMap (BranchStep.inferred? catalog map.law))
      rw [stepped, List.filterMap_cons_some inferred, joined]
      exact later _

/-! ## Settled plans -/

/-- The slot once it is known what the steps led to. -/
def BranchSlot.settle (made : List EntityId) : BranchSlot → BranchSlot
  | entity id => entity id
  | planned step => (made[step]?.map entity).getD (planned step)

/-- The plan once it is known what its steps led to. -/
def BranchPlan.settle (plan : BranchPlan) (made : List EntityId) : BranchPlan :=
  ⟨List.zipWith BranchStep.settle plan.steps made, plan.slots.map fun _ slot => slot.settle made⟩

/-- Planned again in a relation, the step leads to the entity. -/
def BranchStep.Stands (relation : Relation) (catalog : Catalog) (law : LawId)
    (made : List EntityId) : BranchStep → EntityId → Prop
  | reuse _ reused, entity => reused = entity
  | create id head reference, entity => ∀ node, catalog.lawNode? law id = some node →
      relation.existingChild? node (head.map (·.settle made)) (reference.map (·.settle made)) =
        some entity
  | formula _ owner, entity => owner.settle made = .entity entity

theorem zipWith_concat {α β γ : Type} (join : α → β → γ) {first : List α} {second : List β}
    {item : α} {other : β} (place : second[first.length]? = some other) :
    List.zipWith join (first ++ [item]) second =
      List.zipWith join first second ++ [join item other] := by
  induction first generalizing second with
  | nil =>
    cases second with
    | nil => simp at place
    | cons head rest =>
      obtain rfl : head = other := by simpa using place
      simp
  | cons head rest ih =>
    cases second with
    | nil => simp at place
    | cons middle later =>
      have further := @ih later (by simpa using place)
      simpa using further

namespace Correspondence

variable {map : Correspondence} {relation later : Relation} {catalog : Catalog}
  {made : List EntityId}

theorem settle_add (plan : BranchPlan) {id : LawNodeId} {step : BranchStep} {slot : BranchSlot}
    {entity : EntityId} (place : made[plan.steps.length]? = some entity) :
    (plan.settle made).add id (step.settle entity) (slot.settle made) =
      (slot.settle made, (plan.add id step slot).2.settle made) := by
  have slots : (plan.slots.map fun _ slot => slot.settle made).insert id (slot.settle made) =
      (plan.slots.insert id slot).map fun _ slot => slot.settle made := by
    refine Std.ExtTreeMap.ext_getElem? fun key => ?_
    simp only [Std.ExtTreeMap.getElem?_insert, Std.ExtTreeMap.getElem?_map]
    split
    · rfl
    · rfl
  unfold BranchPlan.add BranchPlan.settle
  dsimp only
  rw [zipWith_concat _ place, slots]

/-- Slots that stand for entities already are settled. -/
theorem existingChild?_settle (gains : relation.Gains later) (firm : relation.Firm) {node : LawNode}
    {head reference : Option BranchSlot} {id : EntityId}
    (found : relation.existingChild? node head reference = some id) :
    later.existingChild? node (head.map (·.settle made)) (reference.map (·.settle made)) =
      some id := by
  obtain ⟨above, target, rfl, needed, first⟩ := Relation.existingChild?_eq_some.1 found
  refine Relation.existingChild?_eq_some.2
    ⟨above, target, rfl, ?_, gains.standIn? firm.forest.named firm.below first⟩
  rcases needed with without | ⟨needs, other, rfl, rfl⟩
  · exact Or.inl without
  · exact Or.inr ⟨needs, other, rfl, rfl⟩

theorem addNode?_settle (gains : relation.Gains later) (firm : relation.Firm)
    {plan after : BranchPlan} {node : LawNode} {head reference : Option BranchSlot}
    {slot : BranchSlot} (named : catalog.lawNode? map.law node.id = some node)
    (added : addNode? relation plan node head reference = some (slot, after))
    (stands : ∀ step, after.steps[plan.steps.length]? = some step → ∃ entity,
      made[plan.steps.length]? = some entity ∧ step.Stands later catalog map.law made entity) :
    addNode? later (plan.settle made) node (head.map (·.settle made))
        (reference.map (·.settle made)) =
      some (slot.settle made, after.settle made) := by
  unfold addNode? at added ⊢
  split at added
  · obtain ⟨owner, rfl, same⟩ := Option.map_eq_some_iff.1 added
    obtain ⟨rfl, rfl⟩ := Prod.mk.inj same
    obtain ⟨entity, place, owned⟩ := stands _ List.getElem?_concat_length
    have owns : owner.settle made = .entity entity := owned
    have settled := @settle_add made plan node.id (.formula node.id owner) owner entity place
    change (plan.settle made).add node.id (.formula node.id (.entity entity)) _ = _ at settled
    rw [← owns] at settled
    rw [if_pos (by assumption)]
    exact congrArg some settled
  · rw [if_neg (by assumption)]
    split at added
    · rename_i entity found
      obtain ⟨rfl, rfl⟩ := Prod.mk.inj (Option.some.inj added)
      obtain ⟨other, place, reused⟩ := stands _ List.getElem?_concat_length
      obtain rfl : entity = other := reused
      rw [existingChild?_settle gains firm found]
      exact congrArg some (@settle_add made plan node.id (.reuse node.id entity) (.entity entity)
        entity place)
    · obtain ⟨rfl, rfl⟩ := Prod.mk.inj (Option.some.inj added)
      obtain ⟨entity, place, found⟩ := stands _ List.getElem?_concat_length
      have settled : (BranchSlot.planned plan.steps.length).settle made = .entity entity := by
        simp [BranchSlot.settle, place]
      have again := @settle_add made plan node.id (.create node.id head reference)
        (.planned plan.steps.length) entity place
      rw [settled] at again ⊢
      rw [found node named]
      exact congrArg some again

theorem isPrefix_addNode? {plan after : BranchPlan} {node : LawNode}
    {head reference : Option BranchSlot} {slot : BranchSlot}
    (added : addNode? relation plan node head reference = some (slot, after)) :
    plan.steps <+: after.steps := by
  unfold addNode? at added
  split at added
  · obtain ⟨owner, -, same⟩ := Option.map_eq_some_iff.1 added
    obtain ⟨-, rfl⟩ := Prod.mk.inj same
    exact List.prefix_append _ _
  · split at added
    · obtain ⟨-, rfl⟩ := Prod.mk.inj (Option.some.inj added)
      exact List.prefix_append _ _
    · obtain ⟨-, rfl⟩ := Prod.mk.inj (Option.some.inj added)
      exact List.prefix_append _ _

/-- By induction on the links that may be followed: if the steps lead to the same again, so does the
plan. -/
theorem planNode_settle (valid : catalog.Valid) (gains : relation.Gains later) (firm : relation.Firm)
    {total : List BranchStep}
    (stands : ∀ (index : Nat) (step : BranchStep), total[index]? = some step → ∃ entity,
      made[index]? = some entity ∧ step.Stands later catalog map.law made entity) (depth : Nat) :
    ∀ {plan after : BranchPlan} {id : LawNodeId} {slot : BranchSlot},
      plan.Laid map relation catalog →
      map.planNode relation catalog depth plan id = some (slot, after) → after.steps <+: total →
        map.planNode later catalog depth (plan.settle made) id =
          some (slot.settle made, after.settle made) := by
  induction depth with
  | zero =>
    intro plan after id slot _ planned
    cases planned
  | succ depth ih =>
    intro plan after id slot laid planned kept
    have slots (id : LawNodeId) : (plan.settle made).slots[id]? =
        plan.slots[id]?.map fun slot => slot.settle made :=
      Std.ExtTreeMap.getElem?_map
    unfold planNode
    rw [slots]
    rcases planNode_succ planned with ⟨held, rfl⟩ | ⟨open_, entity, mapped, present, rfl, rfl⟩ |
      ⟨open_, unmapped, unowned, node, head, above, reference, before, named, headed, referred,
        added⟩
    · rw [held]
      rfl
    · have there : slotOf? later entity = some (.entity entity) := if_pos (gains.contains present)
      rw [open_]
      rcases mapped with mapped | ⟨unmapped, formula, owned, rfl⟩
      · rw [mapped]
        simp [there, BranchSlot.settle]
      · rw [unmapped, owned]
        simp [there, BranchSlot.settle]
    · have plans {plan after : BranchPlan} {side : Side} {slot : Option BranchSlot}
          (laid : plan.Laid map relation catalog)
          (planned : planParent? (map.planNode relation catalog depth) plan (node.parent side) =
            some (slot, after)) (kept : after.steps <+: total) :
          planParent? (map.planNode later catalog depth) (plan.settle made) (node.parent side) =
            some (slot.map (·.settle made), after.settle made) := by
        unfold planParent? at planned ⊢
        split at planned
        · obtain ⟨rfl, rfl⟩ := Prod.mk.inj (Option.some.inj planned)
          rfl
        · obtain ⟨⟨found, other⟩, done, same⟩ := Option.map_eq_some_iff.1 planned
          obtain ⟨rfl, rfl⟩ := Prod.mk.inj same
          rw [ih laid done kept]
          rfl
      have lays := fun {plan after : BranchPlan} {id : LawNodeId} {slot : BranchSlot} =>
        @lays_planNode map relation catalog valid firm.forest.named depth plan after id slot
      obtain ⟨laysAbove, -, -, -⟩ := lays_planParent? lays laid named .head headed
      obtain ⟨laysBefore, -, -, -⟩ := lays_planParent? lays laysAbove.laid named .reference referred
      have last := isPrefix_addNode? added
      have within := last.trans kept
      obtain ⟨owner, listed, inLaw⟩ := Catalog.lawNode?_eq_some named
      obtain ⟨-, rfl⟩ := Law.node?_eq_some inLaw
      have settled := addNode?_settle gains firm named added fun step place =>
        stands _ step (getElem?_of_begun kept place)
      have first : planParent? (map.planNode later catalog depth) (plan.settle made) node.head =
          some (head.map (·.settle made), above.settle made) :=
        @plans plan above .head head laid headed (laysBefore.kept.trans within)
      have second : planParent? (map.planNode later catalog depth) (above.settle made)
          node.reference = some (reference.map (·.settle made), before.settle made) :=
        @plans above before .reference reference laysAbove.laid referred within
      rw [open_, unmapped, unowned]
      simp only [Option.map_none, named, Option.bind_eq_bind, Option.bind_some, first, second]
      exact settled

end Correspondence

end ConceptLaws
