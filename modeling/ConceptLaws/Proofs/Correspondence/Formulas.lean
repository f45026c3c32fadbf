import ConceptLaws.Proofs.Correspondence.Derivations

/-! Formulas of correspondences.
A formula belongs to an entity that its correspondence maps: the head of a data node is mapped, or
the branch that the formula comes with maps it, whether it reuses an entity or makes one. -/

namespace ConceptLaws

namespace Correspondence

variable {map : Correspondence}

/-! ## Recorded entities -/

theorem mem_nodeOf_record_of_mem {entity : EntityId} (member : entity ∈ map.nodeOf) (pair : Pair) :
    entity ∈ (map.record pair).nodeOf := by
  rcases map.record_cases pair with same | ⟨-, -, added⟩
  · rw [same]
    exact member
  · rw [added]
    exact Std.ExtTreeMap.mem_insert.2 (Or.inr member)

theorem mem_nodeOf_foldl_record_of_mem {entity : EntityId} (member : entity ∈ map.nodeOf)
    (pairs : List Pair) : entity ∈ (pairs.foldl record map).nodeOf := by
  induction pairs generalizing map with
  | nil => exact member
  | cons first rest ih => exact ih (mem_nodeOf_record_of_mem member first)

/-- A pair is refused only where its entity is mapped already, if its node is free. -/
theorem mem_nodeOf_record {pair : Pair} (free : map.entityOf[pair.node]? = none) :
    pair.entity ∈ (map.record pair).nodeOf := by
  unfold record
  cases taken : map.nodeOf[pair.entity]? with
  | none =>
    rw [free]
    exact Std.ExtTreeMap.mem_insert_self
  | some node =>
    rw [free]
    exact Std.ExtTreeMap.mem_iff_isSome_getElem?.2 (by simp [taken])

theorem entityOf_record_of_ne {pair : Pair} {node : LawNodeId} (different : pair.node ≠ node) :
    (map.record pair).entityOf[node]? = map.entityOf[node]? := by
  rcases map.record_cases pair with same | ⟨-, -, added⟩
  · rw [same]
  · rw [added]
    simp [Std.ExtTreeMap.getElem?_insert, different]

/-- Pairs at different free nodes leave all their entities mapped. -/
theorem mem_nodeOf_foldl_record {pairs : List Pair} (distinct : (pairs.map Pair.node).Nodup)
    (free : ∀ pair ∈ pairs, map.entityOf[pair.node]? = none) :
    ∀ pair ∈ pairs, pair.entity ∈ (pairs.foldl record map).nodeOf := by
  induction pairs generalizing map with
  | nil => simp
  | cons first rest ih =>
    obtain ⟨other, distinct⟩ := List.nodup_cons.1 distinct
    obtain ⟨freeFirst, free⟩ := List.forall_mem_cons.1 free
    refine List.forall_mem_cons.2
      ⟨mem_nodeOf_foldl_record_of_mem (mem_nodeOf_record freeFirst) rest, ih distinct ?_⟩
    intro pair listed
    rw [entityOf_record_of_ne fun same => other (same ▸ List.mem_map_of_mem listed)]
    exact free pair listed

/-! ## Formulas that are taken over -/

theorem formulas_adopt {pairs : List Pair} {formulas : List (LawNodeId × Formula)}
    (distinct : (formulas.map Prod.fst).Nodup)
    (free : ∀ entry ∈ formulas, map.formulas[entry.1]? = none) {node : LawNodeId}
    {formula : Formula} : (map.adopt pairs formulas).formulas[node]? = some formula ↔
      map.formulas[node]? = some formula ∨ (node, formula) ∈ formulas := by
  have recorded := formulas_foldl_record pairs map
  unfold Correspondence.adopt
  dsimp only
  rw [recorded]
  refine ⟨getElem?_insertMany_cases, ?_⟩
  rintro (held | listed)
  · rw [Std.ExtTreeMap.getElem?_insertMany_list_of_contains_eq_false]
    · exact held
    · rw [← Bool.not_eq_true, List.contains_iff_mem]
      intro member
      obtain ⟨entry, listed, rfl⟩ := List.mem_map.1 member
      cases (free entry listed).symm.trans held
  · refine Std.ExtTreeMap.getElem?_insertMany_list_of_mem Std.ReflCmp.compare_self ?_ listed
    exact (List.pairwise_map.1 distinct).imp fun different same =>
      different (Std.compare_eq_iff_eq.1 same)

/-- What the correspondence maps is there, and its formulas, which it has once it is satisfied,
belong to entities that it maps. -/
structure Seated (map : Correspondence) (relation : Relation) : Prop where
  paired : map.Paired
  present : ∀ entity ∈ map.nodeOf, relation.contains entity = true
  owned : ∀ (node : LawNodeId) (formula : Formula), map.formulas[node]? = some formula →
    formula.owner ∈ map.nodeOf
  satisfied : ∀ (node : LawNodeId) (formula : Formula), map.formulas[node]? = some formula →
    map.satisfied = true

theorem Seated.mem_nodeOf {relation : Relation} (seated : map.Seated relation) {node : LawNodeId}
    {entity : EntityId} (held : map.entityOf[node]? = some entity) : entity ∈ map.nodeOf := by
  rw [Std.ExtTreeMap.mem_iff_isSome_getElem?, (seated.paired entity node).2 held]
  rfl

theorem Seated.adopt {relation later : Relation} (seated : map.Seated relation)
    (wider : ∀ id, relation.contains id = true → later.contains id = true) {pairs : List Pair}
    {formulas : List (LawNodeId × Formula)}
    (present : ∀ pair ∈ pairs, later.contains pair.entity = true)
    (owned : ∀ entry ∈ formulas, entry.2.owner ∈ (pairs.foldl record map).nodeOf)
    (satisfied : map.satisfied = true) : (map.adopt pairs formulas).Seated later := by
  have stays := map.stays_adopt pairs formulas
  have paired := stays.paired seated.paired
  refine ⟨paired, fun entity member => ?_, fun node formula held => ?_, fun _ _ _ =>
    stays.satisfied.trans satisfied⟩
  · obtain ⟨node, held⟩ :=
      Option.isSome_iff_exists.1 (Std.ExtTreeMap.mem_iff_isSome_getElem?.1 member)
    have mapped : (pairs.foldl record map).entityOf[node]? = some entity :=
      (paired entity node).1 held
    rcases mapped_foldl_record mapped with before | listed
    · exact wider entity (seated.present entity (seated.mem_nodeOf before))
    · exact present ⟨entity, node⟩ listed
  · rcases getElem?_insertMany_cases held with before | listed
    · rw [formulas_foldl_record] at before
      exact mem_nodeOf_foldl_record_of_mem (seated.owned node formula before) pairs
    · exact owned (node, formula) listed

end Correspondence

/-! ## Planned owners -/

/-- What the slot stands for is mapped or reused, or a step makes it. -/
def BranchSlot.Owned (map : Correspondence) (steps : List BranchStep) : BranchSlot → Prop
  | entity id => id ∈ map.nodeOf ∨ ∃ node, .reuse node id ∈ steps
  | planned step => ∃ id head reference, steps[step]? = some (.create id head reference)

theorem BranchSlot.Owned.mono {map : Correspondence} {steps more : List BranchStep}
    {slot : BranchSlot} (owned : slot.Owned map steps) (kept : steps <+: more) :
    slot.Owned map more := by
  cases slot with
  | entity id => exact owned.imp_right fun ⟨node, listed⟩ => ⟨node, kept.subset listed⟩
  | planned step =>
    obtain ⟨id, head, reference, place⟩ := owned
    exact ⟨id, head, reference, getElem?_of_begun kept place⟩

/-- The steps are about nodes without a formula, and formulas go to what is mapped by then. -/
structure BranchPlan.Owned (plan : BranchPlan) (map : Correspondence) : Prop where
  slots : ∀ (id : LawNodeId) (slot : BranchSlot), plan.slots[id]? = some slot →
    slot.Owned map plan.steps
  free : ∀ step ∈ plan.steps, map.formulas[step.node]? = none
  owners : ∀ (node : LawNodeId) (owner : BranchSlot), .formula node owner ∈ plan.steps →
    owner.Owned map plan.steps

namespace Correspondence

variable {map : Correspondence} {relation : Relation} {catalog : Catalog}

theorem owned_empty (map : Correspondence) : BranchPlan.empty.Owned map := by
  constructor
  all_goals simp [BranchPlan.empty]

theorem owned_add {plan : BranchPlan} (owned : plan.Owned map) {id : LawNodeId} {step : BranchStep}
    {slot : BranchSlot} (about : step.node = id) (free : map.formulas[id]? = none)
    (held : slot.Owned map (plan.steps ++ [step]))
    (owners : ∀ node owner, step = .formula node owner → owner.Owned map plan.steps) :
    (plan.add id step slot).2.Owned map := by
  subst about
  have kept : plan.steps <+: plan.steps ++ [step] := List.prefix_append _ _
  refine ⟨fun other there found => ?_, fun other listed => ?_, fun node owner listed => ?_⟩
  · unfold BranchPlan.add at found
    dsimp only at found
    rw [Std.ExtTreeMap.getElem?_insert] at found
    split at found
    · obtain rfl := Option.some.inj found
      exact held
    · exact (owned.slots other there found).mono kept
  · rcases List.mem_append.1 listed with old | last
    · exact owned.free other old
    · rw [List.mem_singleton.1 last]
      exact free
  · rcases List.mem_append.1 listed with old | last
    · exact (owned.owners node owner old).mono kept
    · exact (owners node owner (List.mem_singleton.1 last).symm).mono kept

/-- A plan goes on, and what the node stands for is mapped in the end. -/
structure Owns (map : Correspondence) (plan later : BranchPlan) (slot : BranchSlot) : Prop where
  owned : later.Owned map
  kept : plan.steps <+: later.steps
  slot : slot.Owned map later.steps

theorem owns_planParent? {planNode : BranchPlan → LawNodeId → Option (BranchSlot × BranchPlan)}
    (owns : ∀ {plan later : BranchPlan} {id : LawNodeId} {slot : BranchSlot}, plan.Owned map →
      planNode plan id = some (slot, later) → map.Owns plan later slot)
    {plan later : BranchPlan} (owned : plan.Owned map) {parent : Option LawNodeId}
    {slot : Option BranchSlot} (planned : planParent? planNode plan parent = some (slot, later)) :
    later.Owned map ∧ plan.steps <+: later.steps ∧ ∀ held ∈ slot, held.Owned map later.steps := by
  unfold planParent? at planned
  split at planned
  · obtain ⟨rfl, rfl⟩ := Prod.mk.inj (Option.some.inj planned)
    exact ⟨owned, List.prefix_refl _, by simp⟩
  · obtain ⟨⟨found, after⟩, done, same⟩ := Option.map_eq_some_iff.1 planned
    obtain ⟨rfl, rfl⟩ := Prod.mk.inj same
    have above := owns owned done
    exact ⟨above.owned, above.kept, by simpa using above.slot⟩

theorem owns_addNode? {plan later : BranchPlan} (owned : plan.Owned map) {node : LawNode}
    (free : map.formulas[node.id]? = none) {head reference : Option BranchSlot} {slot : BranchSlot}
    (headed : ∀ held ∈ head, held.Owned map plan.steps)
    (added : addNode? relation plan node head reference = some (slot, later)) :
    map.Owns plan later slot := by
  unfold addNode? at added
  split at added
  · obtain ⟨owner, rfl, same⟩ := Option.map_eq_some_iff.1 added
    obtain ⟨rfl, rfl⟩ := Prod.mk.inj same
    have held := headed owner rfl
    have later := held.mono (List.prefix_append plan.steps [.formula node.id owner])
    refine ⟨owned_add owned rfl free later fun other slot same => ?_, List.prefix_append _ _, later⟩
    obtain ⟨-, rfl⟩ := BranchStep.formula.inj same
    exact held
  · split at added
    · rename_i entity found
      obtain ⟨rfl, rfl⟩ := Prod.mk.inj (Option.some.inj added)
      have later : BranchSlot.Owned map (plan.steps ++ [.reuse node.id entity]) (.entity entity) :=
        Or.inr ⟨node.id, List.mem_append_right _ List.mem_cons_self⟩
      exact ⟨owned_add owned rfl free later (fun _ _ same => by cases same),
        List.prefix_append _ _, later⟩
    · obtain ⟨rfl, rfl⟩ := Prod.mk.inj (Option.some.inj added)
      have later : BranchSlot.Owned map (plan.steps ++ [.create node.id head reference])
          (.planned plan.steps.length) := ⟨_, _, _, List.getElem?_concat_length⟩
      exact ⟨owned_add owned rfl free later (fun _ _ same => by cases same),
        List.prefix_append _ _, later⟩

/-- By induction on the links that may be followed: what the head stands for is mapped in the end,
so the formula of a data node has its owner. -/
theorem owns_planNode (seated : map.Seated relation) (depth : Nat) :
    ∀ {plan later : BranchPlan} {id : LawNodeId} {slot : BranchSlot}, plan.Owned map →
      map.planNode relation catalog depth plan id = some (slot, later) →
        map.Owns plan later slot := by
  induction depth with
  | zero =>
    intro plan later id slot _ planned
    cases planned
  | succ depth ih =>
    intro plan later id slot owned planned
    rcases planNode_succ planned with ⟨held, rfl⟩ | ⟨-, entity, source, -, rfl, rfl⟩ |
      ⟨-, -, free, node, head, above, reference, before, named, headed, referred, added⟩
    · exact ⟨owned, List.prefix_refl _, owned.slots id slot held⟩
    · refine ⟨owned, List.prefix_refl _, Or.inl ?_⟩
      rcases source with mapped | ⟨-, formula, held, rfl⟩
      · exact seated.mem_nodeOf mapped
      · exact seated.owned id formula held
    · obtain ⟨_, -, present⟩ := Catalog.lawNode?_eq_some named
      obtain ⟨-, rfl⟩ := Law.node?_eq_some present
      obtain ⟨ownedAbove, keptAbove, heldHead⟩ := owns_planParent? ih owned headed
      obtain ⟨ownedBefore, keptBefore, -⟩ := owns_planParent? ih ownedAbove referred
      have owns := owns_addNode? ownedBefore free
        (fun held member => (heldHead held member).mono keptBefore) added
      exact ⟨owns.owned, (keptAbove.trans keptBefore).trans owns.kept, owns.slot⟩

end Correspondence

/-! ## Applied steps -/

def BranchStep.created? : BranchStep → Option LawNodeId
  | create node _ _ => some node
  | _ => none

def BranchStep.formula? : BranchStep → Option LawNodeId
  | formula node _ => some node
  | _ => none

/-- A node whose entity is reused or made is the node of a step. -/
theorem exists_step_of_adopted {steps : List BranchStep} {node : LawNodeId}
    (adopted : node ∈ (steps.filterMap BranchStep.reused?).map Pair.node ++
      steps.filterMap BranchStep.created?) : ∃ step ∈ steps, step.node = node := by
  rcases List.mem_append.1 adopted with reused | created
  · obtain ⟨pair, listed, rfl⟩ := List.mem_map.1 reused
    obtain ⟨step, member, found⟩ := List.mem_filterMap.1 listed
    refine ⟨step, member, ?_⟩
    cases step with
    | reuse node entity =>
      obtain rfl := Option.some.inj found
      rfl
    | create node head reference => cases found
    | formula node owner => cases found
  · obtain ⟨step, member, found⟩ := List.mem_filterMap.1 created
    refine ⟨step, member, ?_⟩
    cases step with
    | reuse node entity => cases found
    | create node head reference => exact Option.some.inj found
    | formula node owner => cases found

/-- Different steps reuse or make entities for different nodes. -/
theorem nodup_adopted {steps : List BranchStep} (distinct : (steps.map BranchStep.node).Nodup) :
    ((steps.filterMap BranchStep.reused?).map Pair.node ++
      steps.filterMap BranchStep.created?).Nodup := by
  induction steps with
  | nil => simp
  | cons first rest ih =>
    obtain ⟨other, distinct⟩ := List.nodup_cons.1 distinct
    have rested := ih distinct
    have apart : first.node ∉ (rest.filterMap BranchStep.reused?).map Pair.node ++
        rest.filterMap BranchStep.created? :=
      fun adopted => other (List.mem_map.2 (exists_step_of_adopted adopted))
    cases first with
    | reuse node entity => exact List.nodup_cons.2 ⟨apart, rested⟩
    | create node head reference => exact List.nodup_middle.2 (List.nodup_cons.2 ⟨apart, rested⟩)
    | formula node owner => exact rested

theorem nodup_formulas {steps : List BranchStep} (distinct : (steps.map BranchStep.node).Nodup) :
    (steps.filterMap BranchStep.formula?).Nodup := by
  refine distinct.sublist ?_
  clear distinct
  induction steps with
  | nil => exact List.Sublist.refl _
  | cons first rest ih =>
    cases first with
    | reuse node entity => exact ih.cons _
    | create node head reference => exact ih.cons _
    | formula node owner => exact ih.cons_cons _

namespace BranchProgress

/-- What steps bring that were all applied. -/
structure Yields (steps : List BranchStep) (progress : BranchProgress) : Prop where
  length : progress.made.length = steps.length
  made : ∀ (index : Nat) (node : LawNodeId) (head reference : Option BranchSlot),
    steps[index]? = some (.create node head reference) →
      ∃ entity, progress.made[index]? = some entity ∧ ⟨entity, node⟩ ∈ progress.created
  created : progress.created.map Pair.node = steps.filterMap BranchStep.created?
  present : ∀ pair ∈ progress.created, progress.relation.contains pair.entity = true
  formulas : progress.formulas.map Prod.fst = steps.filterMap BranchStep.formula?
  owners : ∀ entry ∈ progress.formulas, ∃ slot, .formula entry.1 slot ∈ steps ∧
    progress.resolve? slot = some entry.2.owner

variable {catalog : Catalog} {map : Correspondence} {progress later : BranchProgress}
  {steps : List BranchStep}

theorem yields_start (relation : Relation) : (start relation).Yields [] := by
  constructor
  all_goals simp [start]

/-- One step more. -/
theorem Yields.concat (yields : progress.Yields steps) {step : BranchStep} {entity : EntityId}
    (made : later.made = progress.made ++ [entity])
    (wider : ∀ id, progress.relation.contains id = true → later.relation.contains id = true)
    {created : List Pair} (adds : later.created = progress.created ++ created)
    (nodes : created.map Pair.node = step.created?.toList)
    (makes : ∀ node ∈ step.created?, ⟨entity, node⟩ ∈ created)
    (present : ∀ pair ∈ created, later.relation.contains pair.entity = true)
    {formulas : List (LawNodeId × Formula)}
    (writes : later.formulas = progress.formulas ++ formulas)
    (written : formulas.map Prod.fst = step.formula?.toList)
    (owned : ∀ entry ∈ formulas, ∃ slot, step = .formula entry.1 slot ∧
      progress.resolve? slot = some entry.2.owner) : later.Yields (steps ++ [step]) := by
  have begun : progress.made <+: later.made := made ▸ List.prefix_append _ _
  have last {β : Type} (read : BranchStep → Option β) :
      [step].filterMap read = (read step).toList := by
    cases held : read step with
    | none => simp [held]
    | some value => simp [held]
  refine ⟨by simp [made, yields.length], fun index node head reference listed => ?_, ?_,
    fun pair member => ?_, ?_, fun entry member => ?_⟩
  · rw [adds]
    rcases Nat.lt_trichotomy index steps.length with before | rfl | after
    · rw [List.getElem?_append_left before] at listed
      obtain ⟨held, place, member⟩ := yields.made index node head reference listed
      exact ⟨held, getElem?_of_begun begun place, List.mem_append_left _ member⟩
    · rw [List.getElem?_concat_length] at listed
      obtain rfl := Option.some.inj listed
      refine ⟨entity, ?_, List.mem_append_right _ (makes node rfl)⟩
      rw [made, ← yields.length, List.getElem?_concat_length]
    · rw [List.getElem?_eq_none (by simp; omega)] at listed
      cases listed
  · rw [adds, List.map_append, yields.created, nodes, List.filterMap_append, last]
  · rw [adds] at member
    rcases List.mem_append.1 member with old | new
    · exact wider _ (yields.present pair old)
    · exact present pair new
  · rw [writes, List.map_append, yields.formulas, written, List.filterMap_append, last]
  · rw [writes] at member
    rcases List.mem_append.1 member with old | new
    · obtain ⟨slot, listed, resolved⟩ := yields.owners entry old
      exact ⟨slot, List.mem_append_left _ listed, resolve?_mono begun resolved⟩
    · obtain ⟨slot, rfl, resolved⟩ := owned entry new
      exact ⟨slot, List.mem_append_right _ List.mem_cons_self, resolve?_mono begun resolved⟩

theorem Yields.step (yields : progress.Yields steps) {step : BranchStep}
    (stepped : progress.step catalog map step = (true, later)) :
    later.Yields (steps ++ [step]) := by
  cases step with
  | reuse node entity =>
    obtain ⟨-, rfl⟩ := Prod.mk.inj stepped
    exact yields.concat rfl (fun _ there => there) (List.append_nil _).symm rfl
      (by simp [BranchStep.created?]) (by simp) (List.append_nil _).symm rfl (by simp)
  | create id head reference =>
    unfold BranchProgress.step at stepped
    dsimp only at stepped
    split at stepped
    · cases stepped
    rename_i node named
    obtain ⟨_, -, found⟩ := Catalog.lawNode?_eq_some named
    obtain ⟨-, rfl⟩ := Law.node?_eq_some found
    unfold create at stepped
    dsimp only at stepped
    split at stepped
    · cases stepped
    rename_i relation inserted
    obtain ⟨-, rfl⟩ := Prod.mk.inj stepped
    obtain ⟨-, rfl⟩ := Relation.insert_eq_ok inserted
    refine yields.concat rfl (fun other there => ?_) rfl rfl (by simp [BranchStep.created?])
      (fun pair member => ?_) (List.append_nil _).symm rfl (by simp)
    · obtain ⟨entity, held⟩ := Relation.contains_iff.1 there
      refine Relation.contains_iff.2 ?_
      rw [Relation.get?_put]
      split
      · exact ⟨_, rfl⟩
      · exact ⟨entity, held⟩
    · rw [List.mem_singleton.1 member, Relation.contains_iff, Relation.get?_put]
      exact ⟨_, if_pos rfl⟩
  | formula id slot =>
    unfold BranchProgress.step at stepped
    dsimp only at stepped
    split at stepped
    · rename_i owner source resolved written
      obtain ⟨-, rfl⟩ := Prod.mk.inj stepped
      exact yields.concat rfl (fun _ there => there) (List.append_nil _).symm rfl
        (by simp [BranchStep.created?]) (by simp) rfl rfl (by simpa using resolved)
    · cases stepped

/-- By induction on the steps that are left. -/
theorem Yields.run {rest : List BranchStep} : ∀ {steps : List BranchStep}
    {progress : BranchProgress}, progress.Yields steps →
      progress.run catalog map rest = (true, later) → later.Yields (steps ++ rest) := by
  induction rest with
  | nil =>
    intro steps progress yields ran
    obtain ⟨-, rfl⟩ := Prod.mk.inj ran
    exact (List.append_nil steps).symm ▸ yields
  | cons first rest ih =>
    intro steps progress yields ran
    unfold BranchProgress.run at ran
    split at ran
    · rename_i middle stepped
      have rested := ih (yields.step stepped) ran
      rwa [List.append_assoc] at rested
    · cases ran

end BranchProgress

/-! ## Branches -/

/-- A branch that was applied leaves its correspondence seated, and adds its formulas. -/
theorem Correspondence.Seated.append {map : Correspondence} {relation : Relation}
    {catalog : Catalog} (seated : map.Seated relation) (valid : catalog.Valid)
    (named : relation.Named) (satisfied : map.satisfied = true) {id : LawNodeId}
    {slot : BranchSlot} {plan : BranchPlan} {progress : BranchProgress}
    (planned : map.planBranch? relation catalog id = some (slot, plan))
    (ran : (BranchProgress.start relation).run catalog map plan.steps = (true, progress)) :
    (map.adopt (plan.steps.filterMap BranchStep.reused? ++ progress.created)
        progress.formulas).Seated progress.relation ∧
      ∀ (node : LawNodeId) (formula : Formula),
        (map.adopt (plan.steps.filterMap BranchStep.reused? ++ progress.created)
            progress.formulas).formulas[node]? = some formula ↔
          map.formulas[node]? = some formula ∨ (node, formula) ∈ progress.formulas := by
  have laid := laid_planBranch? valid named planned
  have owned := (owns_planNode seated _ (owned_empty map) planned).owned
  have placed : plan.Placed relation :=
    placed_planNode named _ (fun _ member => by cases member) planned
  have yields : progress.Yields plan.steps := (BranchProgress.yields_start relation).run ran
  have wider := BranchProgress.extends_run catalog map plan.steps (.start relation)
  rw [ran] at wider
  have nodes : (plan.steps.filterMap BranchStep.reused? ++ progress.created).map Pair.node =
      (plan.steps.filterMap BranchStep.reused?).map Pair.node ++
        plan.steps.filterMap BranchStep.created? := by
    rw [List.map_append, yields.created]
  have distinct : ((plan.steps.filterMap BranchStep.reused? ++ progress.created).map
      Pair.node).Nodup := nodes ▸ nodup_adopted laid.distinct
  have mapped : ∀ pair ∈ plan.steps.filterMap BranchStep.reused? ++ progress.created,
      pair.entity ∈ ((plan.steps.filterMap BranchStep.reused? ++ progress.created).foldl record
        map).nodeOf := by
    refine mem_nodeOf_foldl_record distinct fun pair member => ?_
    obtain ⟨step, listed, same⟩ := exists_step_of_adopted (nodes ▸ List.mem_map_of_mem member)
    exact same ▸ laid.unmapped _ listed
  refine ⟨seated.adopt (fun _ there => wider.contains there) (fun pair member => ?_)
    (fun entry member => ?_) satisfied,
    fun node formula => formulas_adopt ?_ fun entry member => ?_⟩
  · rcases List.mem_append.1 member with reused | created
    · exact wider.contains (placed pair reused)
    · exact yields.present pair created
  · obtain ⟨owner, listed, resolved⟩ := yields.owners entry member
    have held := owned.owners _ _ listed
    cases owner with
    | entity id =>
      obtain rfl := Option.some.inj resolved
      rcases held with before | ⟨node, reused⟩
      · exact mem_nodeOf_foldl_record_of_mem before _
      · exact mapped ⟨_, node⟩ (List.mem_append_left _ (List.mem_filterMap.2 ⟨_, reused, rfl⟩))
    | planned step =>
      obtain ⟨node, head, reference, place⟩ := held
      obtain ⟨entity, made, created⟩ := yields.made step node head reference place
      obtain rfl := Option.some.inj (made.symm.trans resolved)
      exact mapped ⟨_, node⟩ (List.mem_append_right _ created)
  · rw [yields.formulas]
    exact nodup_formulas laid.distinct
  · obtain ⟨owner, listed, -⟩ := yields.owners entry member
    exact owned.free _ listed

end ConceptLaws
