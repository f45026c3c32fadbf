import ConceptLaws.Proofs.Correspondence.BranchPlans

/-! Plans of branches that are applied.
In a firm relation with identifiers left, all steps of a laid plan succeed. New entities come after
all others, with the parents that the plan says. What is recorded is what would have been recorded if
all of them had been reused. -/

namespace ConceptLaws

/-! ## Recording in another order -/

namespace Correspondence

/-- Recording a pair makes no difference to the entities and nodes of others. -/
theorem untouched_record (map : Correspondence) {first second : Pair}
    (entities : first.entity ≠ second.entity) (nodes : first.node ≠ second.node) :
    (map.record first).nodeOf[second.entity]? = map.nodeOf[second.entity]? ∧
      (map.record first).entityOf[second.node]? = map.entityOf[second.node]? := by
  rcases map.record_cases first with same | ⟨-, -, added⟩
  · rw [same]
    exact ⟨rfl, rfl⟩
  · simp [added, Std.ExtTreeMap.getElem?_insert, entities, nodes]

/-- Pairs that have nothing in common can be recorded in any order. -/
theorem record_comm (map : Correspondence) {first second : Pair}
    (entities : first.entity ≠ second.entity) (nodes : first.node ≠ second.node) :
    (map.record first).record second = (map.record second).record first := by
  have later := map.untouched_record entities nodes
  have earlier := map.untouched_record entities.symm nodes.symm
  have refused (map : Correspondence) {pair : Pair}
      (taken : ¬(map.nodeOf[pair.entity]? = none ∧ map.entityOf[pair.node]? = none)) :
      map.record pair = map :=
    (map.record_cases pair).resolve_right fun added => taken ⟨added.1, added.2.1⟩
  have granted (map : Correspondence) {pair : Pair}
      (free : map.nodeOf[pair.entity]? = none ∧ map.entityOf[pair.node]? = none) :
      map.record pair = { map with
        nodeOf := map.nodeOf.insert pair.entity pair.node
        entityOf := map.entityOf.insert pair.node pair.entity } := by
    unfold record
    rw [free.1, free.2]
  by_cases freeFirst : map.nodeOf[first.entity]? = none ∧ map.entityOf[first.node]? = none
  · by_cases freeSecond : map.nodeOf[second.entity]? = none ∧ map.entityOf[second.node]? = none
    · rw [granted (map.record first) (by rw [later.1, later.2]; exact freeSecond),
        granted (map.record second) (by rw [earlier.1, earlier.2]; exact freeFirst),
        granted map freeFirst, granted map freeSecond]
      congr 1
      · refine Std.ExtTreeMap.ext_getElem? fun key => ?_
        simp only [Std.ExtTreeMap.getElem?_insert, Std.compare_eq_iff_eq]
        grind
      · refine Std.ExtTreeMap.ext_getElem? fun key => ?_
        simp only [Std.ExtTreeMap.getElem?_insert, Std.compare_eq_iff_eq]
        grind
    · rw [refused map freeSecond, refused (map.record first)]
      rw [later.1, later.2]
      exact freeSecond
  · rw [refused map freeFirst, refused (map.record second)]
    rw [earlier.1, earlier.2]
    exact freeFirst

/-- A pair can be recorded before others that have nothing in common with it. -/
theorem foldl_record_comm {pair : Pair} {others : List Pair}
    (apart : ∀ other ∈ others, pair.entity ≠ other.entity ∧ pair.node ≠ other.node)
    (map : Correspondence) :
    others.foldl record (map.record pair) = (others.foldl record map).record pair := by
  induction others generalizing map with
  | nil => rfl
  | cons first rest ih =>
    obtain ⟨entities, nodes⟩ := apart first List.mem_cons_self
    rw [List.foldl_cons, List.foldl_cons, map.record_comm entities nodes]
    exact ih (fun other member => apart other (List.mem_cons_of_mem first member)) _

end Correspondence

/-! ## What steps lead to -/

/-- The step that reuses what a step led to. -/
def BranchStep.settle : BranchStep → EntityId → BranchStep
  | reuse node _, entity => reuse node entity
  | create node _ _, entity => reuse node entity
  | formula node _, owner => formula node (.entity owner)

/-- The formula that a step adds whose owner is there. -/
def BranchStep.inferred? (catalog : Catalog) (law : LawId) : BranchStep → Option (LawNodeId × Formula)
  | formula node (.entity owner) =>
    (catalog.lawNode? law node >>= LawNode.formula).map fun source => (node, ⟨owner, source⟩)
  | _ => none

/-- What a step of a plan led to. -/
inductive BranchStep.LedTo (catalog : Catalog) (law : LawId) (progress : BranchProgress) :
    BranchStep → EntityId → Prop
  | reuse {id : LawNodeId} {entity : EntityId} : LedTo catalog law progress (.reuse id entity) entity
  | create {id : LawNodeId} {head reference : Option BranchSlot} {entity : EntityId}
      {node : LawNode} {made : Entity} (named : catalog.lawNode? law id = some node)
      (found : progress.relation.get? entity = some made) (concept : made.concept = node.concept)
      (headed : Option.Rel (fun slot parent => progress.resolve? slot = some parent) head made.head)
      (referred : Option.Rel (fun slot parent => progress.resolve? slot = some parent) reference
        made.reference)
      (listed : (⟨entity, id⟩ : Pair) ∈ progress.created) :
      LedTo catalog law progress (.create id head reference) entity
  | formula {id : LawNodeId} {owner : BranchSlot} {entity : EntityId}
      (owned : progress.resolve? owner = some entity) :
      LedTo catalog law progress (.formula id owner) entity

namespace BranchProgress

/-- More steps led to something, and what was there is as it was. -/
structure Continues (progress later : BranchProgress) : Prop where
  made : progress.made <+: later.made
  kept : ∀ (id : EntityId) (entity : Entity), progress.relation.get? id = some entity →
    later.relation.get? id = some entity
  created : progress.created <+: later.created

variable {progress later : BranchProgress} {catalog : Catalog} {map : Correspondence}
  {start : Relation}

theorem resolve?_mono (made : progress.made <+: later.made) {slot : BranchSlot} {entity : EntityId}
    (resolved : progress.resolve? slot = some entity) : later.resolve? slot = some entity := by
  cases slot with
  | entity id => exact resolved
  | planned step => exact getElem?_of_begun made resolved

theorem resolved_mono (made : progress.made <+: later.made) {slots : Option BranchSlot}
    {parents : Option EntityId}
    (resolved : Option.Rel (fun slot parent => progress.resolve? slot = some parent) slots parents) :
    Option.Rel (fun slot parent => later.resolve? slot = some parent) slots parents := by
  cases resolved with
  | none => exact .none
  | some resolved => exact .some (resolve?_mono made resolved)

theorem Continues.ledTo (continues : progress.Continues later) {law : LawId} {step : BranchStep}
    {entity : EntityId} (led : step.LedTo catalog law progress entity) :
    step.LedTo catalog law later entity := by
  cases led with
  | reuse => exact .reuse
  | create named found concept headed referred listed =>
    exact .create named (continues.kept _ _ found) concept (resolved_mono continues.made headed)
      (resolved_mono continues.made referred) (continues.created.subset listed)
  | formula owned => exact .formula (resolve?_mono continues.made owned)

/-- What steps lead to that were all applied. -/
structure Applied (start : Relation) (catalog : Catalog) (map : Correspondence)
    (steps : List BranchStep) (progress : BranchProgress) : Prop where
  firm : progress.relation.Firm
  gains : start.Gains progress.relation
  count : progress.relation.nextId.toNat = start.nextId.toNat + progress.created.length
  length : progress.made.length = steps.length
  few : progress.created.length ≤ steps.length
  there : ∀ entity ∈ progress.made, progress.relation.contains entity = true
  led : ∀ (index : Nat) (step : BranchStep), steps[index]? = some step →
    ∃ entity, progress.made[index]? = some entity ∧ step.LedTo catalog map.law progress entity
  origin : ∀ id, progress.relation.contains id = true →
    start.contains id = true ∨ ∃ pair ∈ progress.created, pair.entity = id
  new : ∀ pair ∈ progress.created, start.nextId.toNat ≤ pair.entity.toNat ∧
    ∃ step ∈ steps, step.node = pair.node
  formulas : progress.formulas = (List.zipWith BranchStep.settle steps progress.made).filterMap
    (BranchStep.inferred? catalog map.law)
  recorded : (steps.filterMap BranchStep.reused? ++ progress.created).foldl Correspondence.record
      map = ((List.zipWith BranchStep.settle steps progress.made).filterMap
        BranchStep.reused?).foldl Correspondence.record map

theorem applied_start (firm : start.Firm) (catalog : Catalog) (map : Correspondence) :
    (BranchProgress.start start).Applied start catalog map [] where
  firm := firm
  gains := start.gains_refl
  count := rfl
  length := rfl
  few := Nat.le_refl _
  there := by simp [BranchProgress.start]
  led := by simp
  origin := fun _ present => Or.inl present
  new := by simp [BranchProgress.start]
  formulas := rfl
  recorded := rfl

/-- What is known of a slot before a step is resolved by then. -/
theorem Applied.resolve? {steps : List BranchStep}
    (applied : progress.Applied start catalog map steps) {slot : BranchSlot}
    (known : slot.Known start steps) :
    ∃ entity, progress.resolve? slot = some entity ∧ progress.relation.contains entity = true := by
  cases slot with
  | entity id => exact ⟨id, rfl, applied.gains.contains known⟩
  | planned step =>
    obtain ⟨id, head, reference, place⟩ := known
    have within : step < progress.made.length :=
      applied.length ▸ (List.getElem?_eq_some_iff.1 place).1
    exact ⟨progress.made[step], List.getElem?_eq_getElem within,
      applied.there _ (List.getElem_mem within)⟩

/-- The books after one more step. -/
theorem Applied.concat {steps : List BranchStep}
    (applied : progress.Applied start catalog map steps) {step : BranchStep} {entity : EntityId}
    (continues : progress.Continues later) (made : later.made = progress.made ++ [entity])
    (firm : later.relation.Firm) (gains : start.Gains later.relation)
    (count : later.relation.nextId.toNat = start.nextId.toNat + later.created.length)
    (few : later.created.length ≤ progress.created.length + 1)
    (there : later.relation.contains entity = true)
    (led : step.LedTo catalog map.law later entity)
    (origin : ∀ id, later.relation.contains id = true →
      start.contains id = true ∨ ∃ pair ∈ later.created, pair.entity = id)
    (new : ∀ pair ∈ later.created, pair ∈ progress.created ∨
      start.nextId.toNat ≤ pair.entity.toNat ∧ step.node = pair.node)
    (formulas : later.formulas = progress.formulas ++
      ((step.settle entity).inferred? catalog map.law).toList)
    (recorded : ((steps ++ [step]).filterMap BranchStep.reused? ++ later.created).foldl
        Correspondence.record map =
      (step.settle entity).reused?.toList.foldl Correspondence.record
        ((steps.filterMap BranchStep.reused? ++ progress.created).foldl Correspondence.record
          map)) :
    later.Applied start catalog map (steps ++ [step]) := by
  have settled : List.zipWith BranchStep.settle (steps ++ [step]) later.made =
      List.zipWith BranchStep.settle steps progress.made ++ [step.settle entity] := by
    rw [made, List.zipWith_append applied.length.symm]
    rfl
  have last {β : Type} (read : BranchStep → Option β) :
      [step.settle entity].filterMap read = (read (step.settle entity)).toList := by
    cases held : read (step.settle entity) with
    | none => simp [held]
    | some value => simp [held]
  have fewBefore := applied.few
  refine ⟨firm, gains, count, by simp [made, applied.length], by simp; omega, fun other member => ?_,
    fun index other listed => ?_, origin, fun pair member => ?_, ?_, ?_⟩
  · rw [made] at member
    rcases List.mem_append.1 member with old | here
    · obtain ⟨before, found⟩ := Relation.contains_iff.1 (applied.there other old)
      exact Relation.contains_iff.2 ⟨before, continues.kept other before found⟩
    · rw [List.mem_singleton.1 here]
      exact there
  · rcases Nat.lt_trichotomy index steps.length with before | rfl | after
    · rw [List.getElem?_append_left before] at listed
      obtain ⟨held, place, led⟩ := applied.led index other listed
      exact ⟨held, getElem?_of_begun continues.made place, continues.ledTo led⟩
    · rw [List.getElem?_concat_length] at listed
      obtain rfl := Option.some.inj listed
      refine ⟨entity, ?_, led⟩
      rw [made, ← applied.length, List.getElem?_concat_length]
    · rw [List.getElem?_eq_none (by simp; omega)] at listed
      cases listed
  · rcases new pair member with old | ⟨after, about⟩
    · obtain ⟨after, other, listed, about⟩ := applied.new pair old
      exact ⟨after, other, List.mem_append_left _ listed, about⟩
    · exact ⟨after, step, by simp, about⟩
  · rw [settled, List.filterMap_append, last, ← applied.formulas]
    exact formulas
  · have pairs := last BranchStep.reused?
    rw [recorded, applied.recorded, settled, ← pairs, ← List.foldl_append, ← List.filterMap_append]

/-! ## One step -/

variable {steps : List BranchStep}

theorem applied_reuse (applied : progress.Applied start catalog map steps) (firm : start.Firm)
    {id : LawNodeId} {entity : EntityId} (present : start.contains entity = true)
    (distinct : ∀ other ∈ steps, other.node ≠ id) :
    (progress.done entity).Applied start catalog map (steps ++ [.reuse id entity]) := by
  have apart : ∀ other ∈ progress.created, entity ≠ other.entity ∧ id ≠ other.node := by
    intro other member
    obtain ⟨after, step, listed, about⟩ := applied.new other member
    have before := firm.below entity present
    refine ⟨?_, fun same => distinct step listed (about.trans same.symm)⟩
    rintro rfl
    omega
  refine applied.concat ⟨List.prefix_append _ _, fun _ _ found => found, List.prefix_refl _⟩ rfl
    applied.firm applied.gains applied.count (Nat.le_succ _) (applied.gains.contains present) .reuse
    applied.origin (fun _ member => Or.inl member) (List.append_nil _).symm ?_
  rw [List.filterMap_append, List.foldl_append, List.foldl_append, List.foldl_append]
  exact Correspondence.foldl_record_comm apart _

theorem applied_formula (applied : progress.Applied start catalog map steps) {id : LawNodeId}
    {owner : BranchSlot} {entity : EntityId} {source : String}
    (owned : progress.resolve? owner = some entity)
    (there : progress.relation.contains entity = true)
    (named : (catalog.lawNode? map.law id >>= LawNode.formula) = some source) :
    Applied start catalog map (steps ++ [.formula id owner]) { progress.done entity with
      formulas := progress.formulas ++ [(id, ⟨entity, source⟩)] } := by
  have made : progress.made <+: progress.made ++ [entity] := List.prefix_append _ _
  refine applied.concat ⟨made, fun _ _ found => found, List.prefix_refl _⟩ rfl applied.firm
    applied.gains applied.count (Nat.le_succ _) there (.formula (resolve?_mono made owned))
    applied.origin (fun _ member => Or.inl member) ?_ ?_
  · simp [BranchStep.settle, BranchStep.inferred?, named]
  · have nothing : [BranchStep.formula id owner].filterMap BranchStep.reused? = [] := rfl
    rw [List.filterMap_append, nothing, List.append_nil]
    rfl

theorem option_rel_bind {α β : Type} {read : α → Option β} {slots : Option α}
    (resolved : ∀ slot ∈ slots, ∃ value, read slot = some value) :
    Option.Rel (fun slot value => read slot = some value) slots (slots >>= read) := by
  cases slots with
  | none => exact .none
  | some slot =>
    obtain ⟨value, held⟩ := resolved slot rfl
    change Option.Rel _ (some slot) (read slot)
    rw [held]
    exact .some held

theorem applied_create (applied : progress.Applied start catalog map steps) (valid : catalog.Valid)
    (accepted : map.tentative = false) {id : LawNodeId} {head reference : Option BranchSlot}
    {node : LawNode} (named : catalog.lawNode? map.law id = some node)
    (headed : ∀ slot ∈ head, slot.Known start steps)
    (referred : ∀ slot ∈ reference, slot.Known start steps)
    (room : progress.relation.nextId.toNat + 1 < UInt64.size) :
    ∃ later, progress.create catalog map node head reference = (true, later) ∧
      later.Applied start catalog map (steps ++ [.create id head reference]) := by
  obtain ⟨owner, listed, present⟩ := Catalog.lawNode?_eq_some named
  obtain ⟨-, rfl⟩ := Law.node?_eq_some present
  have resolved {slots : Option BranchSlot} (known : ∀ slot ∈ slots, slot.Known start steps) :
      (∀ slot ∈ slots, ∃ entity, progress.resolve? slot = some entity) ∧
        ∀ entity ∈ slots >>= progress.resolve?, progress.relation.contains entity = true := by
    cases slots with
    | none => simp
    | some slot =>
      obtain ⟨entity, resolves, there⟩ := applied.resolve? (known slot rfl)
      refine ⟨by simp [resolves], fun other member => ?_⟩
      have same : some entity = some other := resolves.symm.trans member
      exact Option.some.inj same ▸ there
  obtain ⟨resolvedHead, thereHead⟩ := resolved headed
  obtain ⟨resolvedReference, thereReference⟩ := resolved referred
  let entity := newEntity map progress.relation.nextId node (head >>= progress.resolve?)
    (reference >>= progress.resolve?)
  have grounded : ∀ parent ∈ entity.parents, progress.relation.contains parent = true := by
    intro parent member
    rcases List.mem_append.1 member with inHead | inReference
    · exact thereHead parent (Option.mem_toList.1 inHead)
    · exact thereReference parent (Option.mem_toList.1 inReference)
  obtain ⟨relation, inserted, firm, gains, next, found⟩ := @Relation.Firm.insert_fresh _ applied.firm
    entity catalog rfl accepted (valid.checkNode named).1 grounded room
  have made : progress.create catalog map node head reference =
      (true, { progress.done progress.relation.nextId with
        relation := relation
        created := progress.created ++ [⟨progress.relation.nextId, node.id⟩] }) := by
    have added : progress.relation.freshId.2.insert (newEntity map progress.relation.freshId.1 node
        (head >>= progress.resolve?) (reference >>= progress.resolve?)) catalog = .ok relation :=
      inserted
    unfold create
    dsimp only
    rw [added]
    rfl
  have after : start.nextId.toNat ≤ progress.relation.nextId.toNat := applied.gains.next
  have continues : progress.Continues { progress.done progress.relation.nextId with
      relation := relation
      created := progress.created ++ [⟨progress.relation.nextId, node.id⟩] } := by
    refine ⟨List.prefix_append _ _, fun other record held => ?_, List.prefix_append _ _⟩
    have below := applied.firm.below other (Relation.contains_iff.2 ⟨record, held⟩)
    have different : other ≠ entity.id := by
      rintro rfl
      exact Nat.lt_irrefl _ below
    rw [found, if_neg different]
    exact held
  have rel {slots : Option BranchSlot}
      (resolves : ∀ slot ∈ slots, ∃ entity, progress.resolve? slot = some entity) :=
    resolved_mono continues.made (option_rel_bind resolves)
  have there : relation.get? progress.relation.nextId = some entity := by
    rw [found]
    exact if_pos rfl
  have reused : (steps ++ [BranchStep.create node.id head reference]).filterMap
      BranchStep.reused? = steps.filterMap BranchStep.reused? := by
    rw [List.filterMap_append]
    exact List.append_nil _
  refine ⟨_, made, applied.concat continues rfl firm (applied.gains.trans gains) ?_ ?_ ?_ ?_ ?_ ?_ ?_ ?_⟩
  · rw [next, applied.count, List.length_append, List.length_singleton, Nat.add_assoc]
  · simp
  · exact Relation.contains_iff.2 ⟨entity, there⟩
  · exact .create named there rfl (rel resolvedHead) (rel resolvedReference) (by simp)
  · intro id present
    obtain ⟨record, held⟩ := Relation.contains_iff.1 present
    rw [found] at held
    split at held
    · rename_i same
      exact Or.inr ⟨⟨progress.relation.nextId, node.id⟩, by simp, same.symm⟩
    · rcases applied.origin id (Relation.contains_iff.2 ⟨record, held⟩) with old | ⟨pair, member, same⟩
      · exact Or.inl old
      · exact Or.inr ⟨pair, List.mem_append_left _ member, same⟩
  · intro pair member
    rcases List.mem_append.1 member with old | new
    · exact Or.inl old
    · rw [List.mem_singleton.1 new]
      exact Or.inr ⟨after, rfl⟩
  · exact (List.append_nil _).symm
  · rw [reused, ← List.append_assoc, List.foldl_append]
    rfl

/-! ## All steps -/

/-- A step that fits can be applied. -/
theorem Applied.step (applied : progress.Applied start catalog map steps) (valid : catalog.Valid)
    (firm : start.Firm) (accepted : map.tentative = false) {step : BranchStep}
    (fits : step.Fits start catalog map.law steps)
    (distinct : ∀ other ∈ steps, other.node ≠ step.node)
    (room : progress.relation.nextId.toNat + 1 < UInt64.size) :
    ∃ later, progress.step catalog map step = (true, later) ∧
      later.Applied start catalog map (steps ++ [step]) := by
  cases fits with
  | reuse named present => exact ⟨_, rfl, applied_reuse applied firm present distinct⟩
  | create named missing headed referred needed =>
    obtain ⟨later, made, next⟩ := applied_create applied valid accepted named headed referred room
    refine ⟨later, ?_, ?_⟩
    · unfold BranchProgress.step
      dsimp only
      rw [named]
      exact made
    · exact next
  | @formula id owner node named data owned =>
    obtain ⟨entity, resolved, there⟩ := applied.resolve? owned
    obtain ⟨source, written⟩ := Option.isSome_iff_exists.1 data
    have read : (catalog.lawNode? map.law id >>= LawNode.formula) = some source := by
      rw [named]
      exact written
    refine ⟨_, ?_, applied_formula applied resolved there read⟩
    unfold BranchProgress.step
    dsimp only
    rw [resolved, read]

/-- By induction on the steps that are left: all of them succeed. -/
theorem Applied.run (valid : catalog.Valid) (firm : start.Firm) (accepted : map.tentative = false)
    {rest : List BranchStep} : ∀ {steps : List BranchStep} {progress : BranchProgress},
      progress.Applied start catalog map steps →
      (∀ (index : Nat) (step : BranchStep), (steps ++ rest)[index]? = some step →
        step.Fits start catalog map.law ((steps ++ rest).take index)) →
      ((steps ++ rest).map BranchStep.node).Nodup →
      start.nextId.toNat + (steps ++ rest).length < UInt64.size →
      ∃ later, progress.run catalog map rest = (true, later) ∧
        later.Applied start catalog map (steps ++ rest) := by
  induction rest with
  | nil =>
    intro steps progress applied _ _ _
    exact ⟨progress, rfl, (List.append_nil steps).symm ▸ applied⟩
  | cons first rest ih =>
    intro steps progress applied fits distinct room
    have place : (steps ++ first :: rest)[steps.length]? = some first := by simp
    have others : ∀ other ∈ steps, other.node ≠ first.node := by
      rw [List.map_append, List.nodup_append] at distinct
      intro other member
      exact distinct.2.2 _ (List.mem_map_of_mem member) _ (by simp)
    have roomHere : progress.relation.nextId.toNat + 1 < UInt64.size := by
      have count := applied.count
      have few := applied.few
      simp only [List.length_append, List.length_cons] at room
      omega
    have fitsHere := fits _ first place
    rw [List.take_left] at fitsHere
    obtain ⟨next, stepped, appliedNext⟩ := applied.step valid firm accepted fitsHere others roomHere
    have whole : steps ++ first :: rest = steps ++ [first] ++ rest := by simp
    rw [whole] at fits distinct room ⊢
    obtain ⟨later, ran, done⟩ := ih appliedNext fits distinct room
    refine ⟨later, ?_, done⟩
    unfold BranchProgress.run
    rw [stepped]
    exact ran

/-- All steps of a laid plan succeed while there are identifiers left. -/
theorem applied_of_laid (valid : catalog.Valid) (firm : start.Firm) (accepted : map.tentative = false)
    {plan : BranchPlan} (laid : plan.Laid map start catalog)
    (room : start.nextId.toNat + plan.steps.length < UInt64.size) :
    ∃ later, (BranchProgress.start start).run catalog map plan.steps = (true, later) ∧
      later.Applied start catalog map plan.steps :=
  Applied.run valid firm accepted (applied_start firm catalog map) laid.steps laid.distinct room

end BranchProgress

end ConceptLaws
