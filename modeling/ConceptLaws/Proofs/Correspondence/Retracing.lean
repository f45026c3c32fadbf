import ConceptLaws.Proofs.Correspondence.Settling

/-! Conclusions that are drawn again.
The entities that a branch made stand in for its nodes from then on, if each of them has a head and
none repeats an earlier one. Planned again from the same pairs, also after more entities were added,
the branch then makes no entity, and leads to the same pairs and formulas. -/

namespace ConceptLaws

/-- Who looks for the entity under its head may find the earlier one. -/
def Entity.Repeats (entity earlier : Entity) : Prop :=
  entity.concept = earlier.concept ∧ entity.head = earlier.head ∧
    (entity.reference = none ∨ earlier.reference = entity.reference)

instance (entity earlier : Entity) : Decidable (entity.Repeats earlier) :=
  inferInstanceAs (Decidable (_ ∧ _ ∧ _))

namespace Relation

/-- Every one of the entities has a head, and none repeats an earlier one. -/
structure Apart (relation : Relation) (ids : List EntityId) : Prop where
  headed : ∀ id ∈ ids, ∀ entity ∈ relation.get? id, entity.head ≠ none
  single : ∀ id ∈ ids, ∀ other ∈ ids, other.toNat < id.toNat →
    ∀ entity ∈ relation.get? id, ∀ earlier ∈ relation.get? other, ¬ entity.Repeats earlier

instance (relation : Relation) (ids : List EntityId) : Decidable (relation.Apart ids) :=
  decidable_of_iff
    ((∀ id ∈ ids, ∀ entity ∈ relation.get? id, entity.head ≠ none) ∧
      ∀ id ∈ ids, ∀ other ∈ ids, other.toNat < id.toNat →
        ∀ entity ∈ relation.get? id, ∀ earlier ∈ relation.get? other, ¬ entity.Repeats earlier)
    ⟨fun apart => ⟨apart.1, apart.2⟩, fun apart => ⟨apart.headed, apart.single⟩⟩

/-- Entities that are apart in the end were so before. -/
theorem Apart.of_extends {relation later : Relation} {ids some_ : List EntityId}
    (apart : later.Apart ids) (wider : relation.Extends later) (fewer : some_ ⊆ ids) :
    relation.Apart some_ where
  headed := by
    intro id member entity found
    obtain ⟨after, held, alike⟩ := wider.keeps id entity found
    exact alike.head ▸ apart.headed id (fewer member) after held
  single := by
    intro id member other memberToo before entity found earlier foundToo repeats
    obtain ⟨after, held, alike⟩ := wider.keeps id entity found
    obtain ⟨afterToo, heldToo, alikeToo⟩ := wider.keeps other earlier foundToo
    refine apart.single id (fewer member) other (fewer memberToo) before after held afterToo heldToo ?_
    unfold Entity.Repeats at repeats ⊢
    rw [alike.concept, alike.head, alike.reference, alikeToo.concept, alikeToo.head,
      alikeToo.reference]
    exact repeats

end Relation

/-! ## New entities stand in for their nodes -/

namespace BranchProgress

variable {progress : BranchProgress} {start later : Relation} {catalog : Catalog}
  {map : Correspondence} {steps : List BranchStep}

theorem settle_of_resolve? {slot : BranchSlot} {entity : EntityId}
    (resolved : progress.resolve? slot = some entity) :
    slot.settle progress.made = .entity entity := by
  cases slot with
  | entity id =>
    obtain rfl := Option.some.inj resolved
    rfl
  | planned step =>
    have place : progress.made[step]? = some entity := resolved
    simp [BranchSlot.settle, place]

/-- What was there before is not the result of a step. -/
theorem Applied.slot_eq (applied : progress.Applied start catalog map steps) (firm : start.Firm)
    {before : List BranchStep} (earlier : before <+: steps) {slot : BranchSlot} {entity : EntityId}
    (known : slot.Known start before) (resolved : progress.resolve? slot = some entity)
    (present : start.contains entity = true) : slot = .entity entity := by
  cases slot with
  | entity id =>
    obtain rfl := Option.some.inj resolved
    rfl
  | planned step =>
    obtain ⟨id, head, reference, place⟩ := known
    obtain ⟨made, placeMade, led⟩ := applied.led step _ (getElem?_of_begun earlier place)
    obtain rfl : made = entity := Option.some.inj (placeMade.symm.trans resolved)
    cases led with
    | create named found concept headed referred listed =>
      have after : start.nextId.toNat ≤ made.toNat := (applied.new _ listed).1
      have below := firm.below made present
      omega

/-- An entity that was there before does not stand in for a node for which one was made. -/
theorem Applied.not_standsIn (applied : progress.Applied start catalog map steps)
    (firm : start.Firm) {before : List BranchStep} (earlier : before <+: steps) {node : LawNode}
    {head reference : Option BranchSlot}
    (missing : start.existingChild? node head reference = none)
    (headed : ∀ slot ∈ head, slot.Known start before)
    (referred : ∀ slot ∈ reference, slot.Known start before)
    (needed : reference = none ↔ node.reference = none) {above id : EntityId}
    {target : Option EntityId}
    (leads : Option.Rel (fun slot parent => progress.resolve? slot = some parent) head (some above))
    (refers : Option.Rel (fun slot parent => progress.resolve? slot = some parent) reference target) :
    ¬ start.StandsIn node.concept above target id := by
  rintro stands
  obtain ⟨entity, found, linked, fits⟩ := stands
  have grounded {parent : EntityId} (member : parent ∈ entity.parents) :
      start.contains parent = true := firm.forest.grounded ⟨entity, found, member⟩
  obtain ⟨slot, rfl, resolved⟩ : ∃ slot, head = some slot ∧ progress.resolve? slot = some above := by
    cases leads with
    | some resolved => exact ⟨_, rfl, resolved⟩
  have here : slot = .entity above := applied.slot_eq firm earlier (headed slot rfl) resolved
    (grounded (by simp [Entity.parents, linked]))
  obtain ⟨first, taken⟩ : ∃ first, start.standIn? node.concept above target = some first := by
    refine Option.ne_none_iff_exists'.1 fun nobody => ?_
    exact firm.forest.named.standIn?_eq_none.1 nobody id ⟨entity, found, linked, fits⟩
  have reached : start.existingChild? node (some slot) reference = some first := by
    refine Relation.existingChild?_eq_some.2 ⟨above, target, congrArg some here, ?_, taken⟩
    cases refers with
    | none => exact Or.inl ⟨needed.1 rfl, rfl⟩
    | @some other parent resolvedToo =>
      have refersToo : entity.reference = some parent := by
        simpa [Relation.isEquivalent] using (Bool.and_eq_true_iff.1 fits).2
      have there : other = .entity parent := applied.slot_eq firm earlier (referred other rfl)
        resolvedToo (grounded (by simp [Entity.parents, refersToo]))
      refine Or.inr ⟨?_, parent, congrArg some there, rfl⟩
      rw [Option.isSome_iff_ne_none]
      exact fun without => by simpa using needed.2 without
  rw [missing] at reached
  cases reached

/-- Each step leads to the same entity again, if what was made has heads and no repetitions. -/
theorem Applied.stands (applied : progress.Applied start catalog map steps) (firm : start.Firm)
    (fits : ∀ (index : Nat) (step : BranchStep), steps[index]? = some step →
      step.Fits start catalog map.law (steps.take index))
    (apart : progress.relation.Apart (progress.created.map Pair.entity)) (index : Nat)
    (step : BranchStep) (listed : steps[index]? = some step) : ∃ entity,
      progress.made[index]? = some entity ∧
        step.Stands progress.relation catalog map.law progress.made entity := by
  obtain ⟨entity, place, led⟩ := applied.led index step listed
  refine ⟨entity, place, ?_⟩
  cases led with
  | reuse => exact rfl
  | formula owned => exact settle_of_resolve? owned
  | @create id head reference _ node made named found concept headed referred there =>
    intro other namedToo
    obtain rfl := Option.some.inj (named.symm.trans namedToo)
    have laid := fits index _ listed
    cases laid with
    | @create _ _ _ other namedThree missing knownHead knownReference needed =>
    obtain rfl := Option.some.inj (named.symm.trans namedThree)
    have among : entity ∈ progress.created.map Pair.entity := List.mem_map.2 ⟨_, there, rfl⟩
    obtain ⟨above, leads⟩ := Option.ne_none_iff_exists'.1 (apart.headed entity among made found)
    rw [leads] at headed
    have settledHead : head.map (·.settle progress.made) = some (.entity above) := by
      cases headed with
      | some resolved => exact congrArg some (settle_of_resolve? resolved)
    have fitting : node.reference = none ∧ made.reference = none ∨ node.reference.isSome = true ∧
        ∃ target, reference.map (·.settle progress.made) = some (.entity target) ∧
          made.reference = some target := by
      cases held : made.reference with
      | none =>
        rw [held] at referred
        cases referred with
        | none => exact Or.inl ⟨needed.1 rfl, rfl⟩
      | some target =>
        rw [held] at referred
        cases referred with
        | some resolved =>
          refine Or.inr ⟨?_, target, congrArg some (settle_of_resolve? resolved), rfl⟩
          rw [Option.isSome_iff_ne_none]
          exact fun without => by simpa using needed.2 without
    have equivalent : Relation.isEquivalent node.concept made.reference made = true := by
      simp [Relation.isEquivalent, concept]
    refine Relation.existingChild?_eq_some.2 ⟨above, made.reference, settledHead, fitting,
      applied.firm.forest.named.standIn?_eq_some.2 ⟨⟨made, found, leads, equivalent⟩, ?_⟩⟩
    intro rival stands
    by_contra smaller
    obtain ⟨other, foundRival, linked, fitsRival⟩ := stands
    rcases applied.origin rival (Relation.contains_iff.2 ⟨other, foundRival⟩) with
      old | ⟨pair, new, rfl⟩
    · have below := firm.below rival old
      have begun := List.take_prefix index steps
      exact applied.not_standsIn firm begun missing knownHead knownReference needed headed referred
        (applied.gains.standsIn_old ⟨other, foundRival, linked, fitsRival⟩ below)
    · refine apart.single entity among pair.entity (List.mem_map_of_mem new) (by omega) made found
        other foundRival ⟨?_, leads.trans linked.symm, ?_⟩
      · rw [Relation.isEquivalent, Bool.and_eq_true, beq_iff_eq] at fitsRival
        exact concept.trans fitsRival.1.symm
      · simpa [Relation.isEquivalent] using (Bool.and_eq_true_iff.1 fitsRival).2

end BranchProgress

/-- A step that leads to an entity in a relation does so after others were added. -/
theorem BranchStep.Stands.gains {relation later : Relation} {catalog : Catalog} {law : LawId}
    {made : List EntityId} {step : BranchStep} {entity : EntityId}
    (stands : step.Stands relation catalog law made entity) (gains : relation.Gains later)
    (firm : relation.Firm) : step.Stands later catalog law made entity := by
  cases step with
  | reuse node reused => exact stands
  | create id head reference =>
    exact fun node named => gains.existingChild? firm.forest.named firm.below (stands node named)
  | formula node owner => exact stands

/-! ## Plans that make nothing -/

namespace Correspondence

/-- From now on the branches of the nodes make no entity, one after the other. -/
inductive Retraces (relation : Relation) (catalog : Catalog) :
    Correspondence → List LawNodeId → Prop
  | done (map : Correspondence) : Retraces relation catalog map []
  | branch {map : Correspondence} {node : LawNodeId} {rest : List LawNodeId} {slot : BranchSlot}
      {plan : BranchPlan}
      (planned : ∀ later, relation.Gains later →
        map.planBranch? later catalog node = some (slot, plan))
      (idle : ∀ step ∈ plan.steps, step.Idle catalog map.law)
      (further : Retraces relation catalog (map.adopt (plan.steps.filterMap BranchStep.reused?)
        (plan.steps.filterMap (BranchStep.inferred? catalog map.law))) rest) :
      Retraces relation catalog map (node :: rest)

variable {map other : Correspondence} {relation later : Relation} {catalog : Catalog}
  {nodes : List LawNodeId}

theorem Retraces.gains (retraces : map.Retraces relation catalog nodes)
    (gains : relation.Gains later) : map.Retraces later catalog nodes := by
  induction retraces with
  | done map => exact .done map
  | branch planned idle _ ih =>
    exact .branch (fun beyond more => planned beyond (gains.trans more)) idle ih

/-- Branches depend on the law, the pairs and the formulas only. -/
theorem Retraces.congr (retraces : map.Retraces relation catalog nodes) :
    ∀ {other : Correspondence}, map.Coincides other → other.Retraces relation catalog nodes := by
  induction retraces with
  | done map => exact fun _ => .done _
  | branch planned idle _ ih =>
    intro other same
    refine .branch (fun later gains => (same.planBranch? _).trans (planned later gains)) ?_ ?_
    · rw [same.law]
      exact idle
    · rw [same.law]
      exact ih (same.adopt _ _)

/-! ## Branches that were applied -/

theorem mem_settle {plan : BranchPlan} {made : List EntityId} {step : BranchStep}
    (listed : step ∈ (plan.settle made).steps) :
    ∃ first ∈ plan.steps, ∃ entity ∈ made, step = first.settle entity := by
  obtain ⟨index, place⟩ := List.mem_iff_getElem?.1 listed
  have zipped : (List.zipWith BranchStep.settle plan.steps made)[index]? = some step := place
  rw [List.getElem?_zipWith] at zipped
  split at zipped
  · rename_i first entity held heldToo
    exact ⟨first, List.mem_of_getElem? held, entity, List.mem_of_getElem? heldToo,
      (Option.some.inj zipped).symm⟩
  · cases zipped

theorem idle_settle {plan : BranchPlan} (laid : plan.Laid map relation catalog)
    (made : List EntityId) : ∀ step ∈ (plan.settle made).steps, step.Idle catalog map.law := by
  intro step listed
  obtain ⟨first, member, entity, -, rfl⟩ := mem_settle listed
  obtain ⟨index, place⟩ := List.mem_iff_getElem?.1 member
  have fits := laid.steps index first place
  cases fits with
  | reuse named present => exact trivial
  | create named missing headed referred needed => exact trivial
  | formula named data owned =>
    refine ⟨⟨entity, rfl⟩, ?_⟩
    rw [named]
    exact data

/-- Planned again, an applied branch leads to the same entities. -/
theorem planBranch?_settle (valid : catalog.Valid) (firm : relation.Firm) {node : LawNodeId}
    {slot : BranchSlot} {plan : BranchPlan}
    (planned : map.planBranch? relation catalog node = some (slot, plan))
    {progress : BranchProgress} (applied : progress.Applied relation catalog map plan.steps)
    (apart : progress.relation.Apart (progress.created.map Pair.entity)) (later : Relation)
    (gains : progress.relation.Gains later) : map.planBranch? later catalog node =
      some (slot.settle progress.made, plan.settle progress.made) := by
  have laid := laid_planBranch? valid firm.forest.named planned
  have stands (index : Nat) (step : BranchStep) (listed : plan.steps[index]? = some step) :
      ∃ entity, progress.made[index]? = some entity ∧
        step.Stands later catalog map.law progress.made entity := by
    obtain ⟨entity, place, stands⟩ := applied.stands firm laid.steps apart index step listed
    exact ⟨entity, place, stands.gains gains applied.firm⟩
  exact planNode_settle valid (applied.gains.trans gains) firm stands _
    (laid_empty map relation catalog) planned (List.prefix_refl _)

/-- The pairs and formulas of an applied branch are those that its settled steps lead to. -/
theorem adopt_settle {plan : BranchPlan} {progress : BranchProgress}
    (applied : progress.Applied relation catalog map plan.steps) :
    map.adopt ((plan.settle progress.made).steps.filterMap BranchStep.reused?)
        ((plan.settle progress.made).steps.filterMap (BranchStep.inferred? catalog map.law)) =
      map.adopt (plan.steps.filterMap BranchStep.reused? ++ progress.created) progress.formulas := by
  unfold adopt
  rw [applied.recorded, applied.formulas]
  rfl

end Correspondence

end ConceptLaws
