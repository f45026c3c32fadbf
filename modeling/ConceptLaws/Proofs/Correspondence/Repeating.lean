import ConceptLaws.Proofs.Correspondence.Explanations
import ConceptLaws.Proofs.Correspondence.Flags
import ConceptLaws.Proofs.Correspondence.Inferring
import ConceptLaws.Proofs.Correspondence.Undoing

/-! Appending again.
After a branch was applied, every node of its plan is mapped, or the node of a formula, or leads again
to an entity that is mapped at another node. The branches that follow leave this so, as their
entities come after the others. When the conclusions are appended again, all branches lead to where
they led before, and nothing changes. -/

namespace ConceptLaws

/-! ## Claims -/

namespace Entity

theorem claim_claim (map : Correspondence) (entity : Entity) :
    (entity.claim map).claim map = entity.claim map := by
  unfold claim
  by_cases appended : entity.provenance.appended = true
  · have again (ids : Std.ExtTreeSet MapId) : (ids.insert map.id).insert map.id = ids.insert map.id := by
      refine Std.ExtTreeSet.ext_mem fun id => ?_
      simp only [Std.ExtTreeSet.mem_insert]
      exact or_self_left
    simp [appended, again]
  · simp [appended]

theorem claim_congr {map other : Correspondence} (id : other.id = map.id)
    (tentative : other.tentative = map.tentative) (entity : Entity) :
    entity.claim other = entity.claim map := by
  unfold claim
  rw [id, tentative]

end Entity

/-- Laying claim to entities, one after the other, is laying claim to each of them once. -/
theorem Relation.get?_foldl_claim (map : Correspondence) (pairs : List Pair) :
    ∀ (relation : Relation) (id : EntityId),
      (pairs.foldl (fun relation pair => relation.update pair.entity (Entity.claim map))
        relation).get? id =
        if id ∈ pairs.map Pair.entity then (relation.get? id).map (Entity.claim map)
        else relation.get? id := by
  induction pairs with
  | nil => exact fun _ _ => rfl
  | cons first rest ih =>
    intro relation id
    rw [List.foldl_cons, ih, get?_update, List.map_cons]
    by_cases here : id = first.entity
    · rw [if_pos here, if_pos (List.mem_cons.2 (.inl here)), Option.map_map]
      split
      · exact congrArg (Option.map · _) (funext (Entity.claim_claim map))
      · rfl
    · have same : id ∈ first.entity :: rest.map Pair.entity ↔ id ∈ rest.map Pair.entity := by
        simp [here]
      simp only [here, if_false, same]

/-! ## Nodes that are resolved -/

namespace Correspondence

/-- Appending the node again leads to the entity, and changes nothing: it is mapped to it, or has a
formula for it, or finds it through its parents although it is mapped at another node. -/
inductive Resolves (map : Correspondence) (relation : Relation) (catalog : Catalog) :
    LawNodeId → EntityId → Prop
  | mapped {id : LawNodeId} {entity : EntityId} (held : map.entityOf[id]? = some entity)
      (present : relation.contains entity = true) : Resolves map relation catalog id entity
  | owned {id : LawNodeId} {formula : Formula} (unmapped : map.entityOf[id]? = none)
      (held : map.formulas[id]? = some formula) (present : relation.contains formula.owner = true) :
      Resolves map relation catalog id formula.owner
  | again {id place : LawNodeId} {node : LawNode} {parents : Side → EntityId} {entity : EntityId}
      (lacks : map.Lacks catalog id node) (plain : node.isData = false)
      (above : ∀ side parent, node.parent side = some parent →
        Resolves map relation catalog parent (parents side))
      (found : relation.existingChild? node (node.along (fun side => .entity (parents side)) .head)
        (node.along (fun side => .entity (parents side)) .reference) = some entity)
      (taken : map.nodeOf[entity]? = some place)
      (claimed : ∀ other, relation.get? entity = some other → other.claim map = other) :
      Resolves map relation catalog id entity

variable {map other after : Correspondence} {relation later : Relation} {catalog : Catalog}
  {steps : List BranchStep} {id : LawNodeId} {entity : EntityId} {slot : BranchSlot}

/-- A plan leads to where the node resolves. -/
theorem Resolves.explained (resolves : map.Resolves relation catalog id entity) :
    ∀ {slot : BranchSlot}, map.Explains relation catalog steps id slot → slot = .entity entity := by
  induction resolves with
  | mapped held present =>
    intro slot explains
    cases explains with
    | mapped heldToo _ => rw [Option.some.inj (held.symm.trans heldToo)]
    | owned unmapped _ _ => cases held.symm.trans unmapped
    | formula lacks _ _ _ _ => cases held.symm.trans lacks.unmapped
    | reuse lacks _ _ _ _ => cases held.symm.trans lacks.unmapped
    | create lacks _ _ _ _ => cases held.symm.trans lacks.unmapped
  | owned unmapped held present =>
    intro slot explains
    cases explains with
    | mapped heldToo _ => cases unmapped.symm.trans heldToo
    | owned _ heldToo _ => rw [Option.some.inj (held.symm.trans heldToo)]
    | formula lacks _ _ _ _ => cases held.symm.trans lacks.unowned
    | reuse lacks _ _ _ _ => cases held.symm.trans lacks.unowned
    | create lacks _ _ _ _ => cases held.symm.trans lacks.unowned
  | again lacks plain _ found _ _ ih =>
    intro slot explains
    cases explains with
    | mapped held _ => cases lacks.unmapped.symm.trans held
    | owned _ held _ => cases lacks.unowned.symm.trans held
    | formula lacksToo data _ _ _ =>
      obtain rfl := Option.some.inj (lacks.named.symm.trans lacksToo.named)
      cases plain.symm.trans data
    | reuse lacksToo _ above foundToo _ =>
      obtain rfl := Option.some.inj (lacks.named.symm.trans lacksToo.named)
      have same := LawNode.along_congr fun side parent leads => ih side parent leads
        (above side parent leads)
      rw [same .head, same .reference] at foundToo
      rw [Option.some.inj (found.symm.trans foundToo)]
    | create lacksToo _ above missing _ =>
      obtain rfl := Option.some.inj (lacks.named.symm.trans lacksToo.named)
      have same := LawNode.along_congr fun side parent leads => ih side parent leads
        (above side parent leads)
      rw [same .head, same .reference] at missing
      cases found.symm.trans missing

/-- Resolving depends on the law, the pairs, the formulas and the claims only. -/
theorem Resolves.congr (resolves : map.Resolves relation catalog id entity)
    (same : map.Coincides other) (named : other.id = map.id)
    (tentative : other.tentative = map.tentative) : other.Resolves relation catalog id entity := by
  induction resolves with
  | mapped held present => exact .mapped (same.entityOf ▸ held) present
  | owned unmapped held present =>
    exact .owned (same.entityOf ▸ unmapped) (same.formulas ▸ held) present
  | again lacks plain _ found taken claimed ih =>
    refine .again ⟨same.entityOf ▸ lacks.unmapped, same.formulas ▸ lacks.unowned,
      same.law ▸ lacks.named⟩ plain ih found (same.nodeOf ▸ taken) fun other held => ?_
    rw [Entity.claim_congr named tentative]
    exact claimed other held

end Correspondence

/-! ## Plans of resolved nodes -/

/-- The step reuses an entity that is mapped and claimed already. -/
def BranchStep.Repeats (map : Correspondence) (relation : Relation) : BranchStep → Prop
  | reuse _ entity => (∃ place, map.nodeOf[entity]? = some place) ∧
      ∀ other, relation.get? entity = some other → other.claim map = other
  | _ => False

namespace Correspondence

variable {map : Correspondence} {relation : Relation} {catalog : Catalog} {plan later : BranchPlan}
  {id : LawNodeId} {entity : EntityId} {slot : BranchSlot}

end Correspondence

/-! ## A branch that was carried out -/

/-- The nodes of a law that are not mapped. -/
def Correspondence.unmapped (map : Correspondence) (law : Law) : List LawNodeId :=
  (law.nodes.map LawNode.id).filter fun id => (map.entityOf[id]?).isNone

/-- A branch was planned for a relation, and all of its steps were applied under identifiers that
come after those in use. -/
structure BranchProgress.Carries (map : Correspondence) (relation : Relation) (catalog : Catalog)
    (plan : BranchPlan) (progress : BranchProgress) : Prop where
  laid : plan.Laid map relation catalog
  explained : map.Explained relation catalog plan
  yields : progress.Yields plan.steps
  adds : progress.Adds relation map.tentative
  gains : relation.Gains progress.relation

namespace BranchProgress.Carries

variable {map : Correspondence} {relation : Relation} {catalog : Catalog} {plan : BranchPlan}
  {progress : BranchProgress}

/-- The pairs that the branch has recorded. -/
abbrev pairs (plan : BranchPlan) (progress : BranchProgress) : List Pair :=
  plan.steps.filterMap BranchStep.reused? ++ progress.created

/-- The correspondence after the branch. -/
abbrev after (map : Correspondence) (plan : BranchPlan) (progress : BranchProgress) :
    Correspondence :=
  map.adopt (pairs plan progress) progress.formulas

/-- The relation after the branch. -/
abbrev later (map : Correspondence) (plan : BranchPlan) (progress : BranchProgress) : Relation :=
  (plan.steps.filterMap BranchStep.reused?).foldl
    (fun relation pair => relation.update pair.entity (Entity.claim map)) progress.relation

theorem step_unique (carries : progress.Carries map relation catalog plan) {step other : BranchStep}
    (listed : step ∈ plan.steps) (listedToo : other ∈ plan.steps) (same : step.node = other.node) :
    step = other :=
  List.inj_on_of_nodup_map carries.laid.distinct listed listedToo same

/-- A pair is recorded for a step that reuses or makes its entity. -/
theorem exists_step (carries : progress.Carries map relation catalog plan) {pair : Pair}
    (listed : pair ∈ pairs plan progress) : .reuse pair.node pair.entity ∈ plan.steps ∨
      pair ∈ progress.created ∧ ∃ head reference, .create pair.node head reference ∈ plan.steps := by
  rcases List.mem_append.1 listed with reused | created
  · obtain ⟨step, member, found⟩ := List.mem_filterMap.1 reused
    cases step with
    | reuse node entity =>
      obtain rfl := Option.some.inj found
      exact Or.inl member
    | create node head reference => cases found
    | formula node owner => cases found
  · have node : pair.node ∈ progress.created.map Pair.node := List.mem_map_of_mem created
    rw [carries.yields.created] at node
    obtain ⟨step, member, found⟩ := List.mem_filterMap.1 node
    cases step with
    | reuse node entity => cases found
    | create node head reference =>
      obtain rfl := Option.some.inj found
      exact Or.inr ⟨created, head, reference, member⟩
    | formula node owner => cases found

theorem nodup_pairs (carries : progress.Carries map relation catalog plan) :
    ((pairs plan progress).map Pair.node).Nodup := by
  have nodes : (pairs plan progress).map Pair.node =
      (plan.steps.filterMap BranchStep.reused?).map Pair.node ++
        plan.steps.filterMap BranchStep.created? := by
    rw [List.map_append, carries.yields.created]
  rw [nodes]
  exact nodup_adopted carries.laid.distinct

theorem lacks_of_pair (carries : progress.Carries map relation catalog plan) {pair : Pair}
    (listed : pair ∈ pairs plan progress) : ∃ node, map.Lacks catalog pair.node node := by
  rcases carries.exists_step listed with reused | ⟨-, _, _, created⟩
  · exact carries.explained.lacks _ reused
  · exact carries.explained.lacks _ created

theorem unmapped_of_pair (carries : progress.Carries map relation catalog plan) {pair : Pair}
    (listed : pair ∈ pairs plan progress) : map.entityOf[pair.node]? = none := by
  obtain ⟨node, lacks⟩ := carries.lacks_of_pair listed
  exact lacks.unmapped

/-- What is newly mapped was recorded. -/
theorem mapped_cases {node : LawNodeId} {entity : EntityId}
    (held : (after map plan progress).entityOf[node]? = some entity) :
    map.entityOf[node]? = some entity ∨ ⟨entity, node⟩ ∈ pairs plan progress :=
  Correspondence.mapped_foldl_record held

/-- A pair is recorded, unless its entity is mapped at another node. -/
theorem recorded (carries : progress.Carries map relation catalog plan) (paired : map.Paired)
    {pair : Pair} (listed : pair ∈ pairs plan progress) :
    (after map plan progress).entityOf[pair.node]? = some pair.entity ∨
      (after map plan progress).entityOf[pair.node]? = none ∧
        ∃ place, (after map plan progress).nodeOf[pair.entity]? = some place := by
  have pairedToo := (map.stays_adopt (pairs plan progress) progress.formulas).paired paired
  have taken := Correspondence.mem_nodeOf_foldl_record carries.nodup_pairs
    (fun pair => carries.unmapped_of_pair) pair listed
  obtain ⟨place, held⟩ := Option.isSome_iff_exists.1 (Std.ExtTreeMap.mem_iff_isSome_getElem?.1 taken)
  cases mapped : (after map plan progress).entityOf[pair.node]? with
  | none => exact Or.inr ⟨rfl, place, held⟩
  | some entity =>
    rcases mapped_cases mapped with old | new
    · cases (carries.unmapped_of_pair listed).symm.trans old
    · have same : (⟨entity, pair.node⟩ : Pair) = pair :=
        List.inj_on_of_nodup_map carries.nodup_pairs new listed rfl
      exact Or.inl (congrArg some (congrArg Pair.entity same))

/-- What is made is mapped at the node for which it was made. -/
theorem mapped_created (carries : progress.Carries map relation catalog plan)
    (seated : map.Seated relation) (placed : plan.Placed relation) {pair : Pair}
    (created : pair ∈ progress.created) :
    (after map plan progress).entityOf[pair.node]? = some pair.entity := by
  have paired := (map.stays_adopt (pairs plan progress) progress.formulas).paired seated.paired
  have fresh : ¬relation.contains pair.entity = true :=
    carries.adds.enlarges.apart _ (List.mem_map_of_mem created)
  refine (carries.recorded seated.paired (List.mem_append_right _ created)).resolve_right ?_
  rintro ⟨open_, place, held⟩
  rcases mapped_cases ((paired _ _).1 held) with old | new
  · exact fresh (seated.present _ (seated.mem_nodeOf old))
  · rcases List.mem_append.1 new with reused | again
    · exact fresh (placed ⟨_, place⟩ reused)
    · have same : (⟨pair.entity, place⟩ : Pair) = pair :=
        List.inj_on_of_nodup_map carries.adds.enlarges.distinct again created rfl
      rw [← same] at open_
      cases open_.symm.trans ((paired _ _).1 held)

/-- A node that is no step's stays as it is. -/
theorem untouched (carries : progress.Carries map relation catalog plan) {node : LawNodeId}
    (elsewhere : ∀ step ∈ plan.steps, step.node ≠ node) (unmapped : map.entityOf[node]? = none) :
    (after map plan progress).entityOf[node]? = none := by
  refine Option.eq_none_iff_forall_ne_some.2 fun entity held => ?_
  rcases mapped_cases held with old | new
  · cases unmapped.symm.trans old
  · rcases carries.exists_step new with reused | ⟨-, _, _, created⟩
    · exact elsewhere _ reused rfl
    · exact elsewhere _ created rfl

theorem formulas_after (carries : progress.Carries map relation catalog plan) {node : LawNodeId}
    {formula : Formula} : (after map plan progress).formulas[node]? = some formula ↔
      map.formulas[node]? = some formula ∨ (node, formula) ∈ progress.formulas := by
  refine Correspondence.formulas_adopt ?_ fun entry member => ?_
  · rw [carries.yields.formulas]
    exact nodup_formulas carries.laid.distinct
  · obtain ⟨owner, listed, -⟩ := carries.yields.owners entry member
    obtain ⟨node, lacks⟩ := carries.explained.lacks _ listed
    exact lacks.unowned

/-- A formula is added for the step of a data node, which is not mapped. -/
theorem formula_added (carries : progress.Carries map relation catalog plan) {node : LawNodeId}
    {owner : BranchSlot} (listed : .formula node owner ∈ plan.steps) :
    (after map plan progress).entityOf[node]? = none ∧ ∃ formula,
      (after map plan progress).formulas[node]? = some formula ∧
        progress.resolve? owner = some formula.owner := by
  constructor
  · refine Option.eq_none_iff_forall_ne_some.2 fun entity held => ?_
    rcases mapped_cases held with old | new
    · cases (carries.laid.unmapped _ listed).symm.trans old
    · rcases carries.exists_step new with reused | ⟨-, _, _, created⟩
      · cases carries.step_unique listed reused rfl
      · cases carries.step_unique listed created rfl
  · have among : node ∈ progress.formulas.map Prod.fst := by
      rw [carries.yields.formulas]
      exact List.mem_filterMap.2 ⟨_, listed, rfl⟩
    obtain ⟨⟨_, formula⟩, member, rfl⟩ := List.mem_map.1 among
    obtain ⟨slot, listedToo, resolved⟩ := carries.yields.owners _ member
    obtain ⟨-, rfl⟩ := BranchStep.formula.inj (carries.step_unique listed listedToo rfl)
    exact ⟨formula, carries.formulas_after.2 (.inr member), resolved⟩

/-- A node that is not of data gets no formula. -/
theorem unowned_of_plain (carries : progress.Carries map relation catalog plan) {id : LawNodeId}
    {node : LawNode} (lacks : map.Lacks catalog id node) (plain : node.isData = false) :
    (after map plan progress).formulas[id]? = none := by
  refine Option.eq_none_iff_forall_ne_some.2 fun formula held => ?_
  rcases carries.formulas_after.1 held with old | new
  · cases lacks.unowned.symm.trans old
  · obtain ⟨owner, listed, -⟩ := carries.yields.owners _ new
    obtain ⟨index, place⟩ := List.mem_iff_getElem?.1 listed
    cases carries.laid.steps index _ place with
    | formula named data _ =>
      obtain rfl := Option.some.inj (lacks.named.symm.trans named)
      cases plain.symm.trans data

/-! ### Claims and relations -/

theorem get?_later (map : Correspondence) (plan : BranchPlan) (progress : BranchProgress)
    (id : EntityId) : (later map plan progress).get? id =
      if id ∈ (plan.steps.filterMap BranchStep.reused?).map Pair.entity then
        (progress.relation.get? id).map (Entity.claim map)
      else progress.relation.get? id :=
  Relation.get?_foldl_claim map _ _ id

/-- What was claimed before, or is reused, is claimed afterwards. -/
theorem claimed_later (carries : progress.Carries map relation catalog plan) {entity : EntityId}
    (present : relation.contains entity = true)
    (claimed : (∀ other, relation.get? entity = some other → other.claim map = other) ∨
      ∃ node, .reuse node entity ∈ plan.steps) {other : Entity}
    (found : (later map plan progress).get? entity = some other) :
    other.claim (after map plan progress) = other := by
  have stays := map.stays_adopt (pairs plan progress) progress.formulas
  have old : progress.relation.get? entity = relation.get? entity :=
    carries.adds.same entity fun new => carries.adds.enlarges.apart entity new present
  rw [Entity.claim_congr stays.id stays.tentative]
  rw [get?_later, old] at found
  split at found
  · obtain ⟨before, -, rfl⟩ := Option.map_eq_some_iff.1 found
    exact before.claim_claim map
  · rename_i unused
    rcases claimed with before | ⟨node, listed⟩
    · exact before other found
    · have reused : (⟨entity, node⟩ : Pair) ∈ plan.steps.filterMap BranchStep.reused? :=
        List.mem_filterMap.2 ⟨_, listed, rfl⟩
      exact absurd (List.mem_map_of_mem reused) unused

theorem gains_later (carries : progress.Carries map relation catalog plan) :
    relation.Gains (later map plan progress) :=
  carries.gains.trans (Relation.sameEntities_foldl_claim map _ progress.relation).gains

end BranchProgress.Carries

/-! ## Identifiers -/

namespace BranchStep

theorem countP_creates (steps : List BranchStep) :
    steps.countP creates = (steps.filterMap created?).length := by
  rw [List.length_filterMap_eq_countP]
  congr
  funext step
  cases step with
  | reuse node entity => rfl
  | create node head reference => rfl
  | formula node owner => rfl

end BranchStep

namespace BranchProgress

variable {relation : Relation} {progress : BranchProgress} {steps : List BranchStep}
  {tentative : Bool}

/-- While identifiers do not come around, the new ones come after the old ones. -/
theorem Stands.gains (stands : progress.Stands relation tentative steps)
    (wider : relation.Extends progress.relation) (below : relation.Below)
    (room : relation.nextId.toNat + steps.countP BranchStep.creates < UInt64.size) :
    relation.Gains progress.relation ∧ progress.relation.Below ∧
      progress.relation.nextId.toNat = relation.nextId.toNat + steps.countP BranchStep.creates := by
  have number {count : Nat} (within : count ≤ steps.countP BranchStep.creates) :
      (Identifier.next^[count] relation.nextId).toNat = relation.nextId.toNat + count := by
    rw [Identifier.toNat_iterate_next]
    exact Nat.mod_eq_of_lt (by omega)
  have next : progress.relation.nextId.toNat =
      relation.nextId.toNat + steps.countP BranchStep.creates := by
    rw [stands.next]
    exact number (Nat.le_refl _)
  have cases {id : EntityId} (present : progress.relation.contains id = true) :
      relation.contains id = true ∨ relation.nextId.toNat ≤ id.toNat ∧
        id.toNat < progress.relation.nextId.toNat := by
    rcases (stands.adds.enlarges.contains id).1 present with old | new
    · exact Or.inl old
    · obtain ⟨earlier, before, rfl⟩ := stands.numbers id new
      rw [number (Nat.le_of_lt before), next]
      exact Or.inr ⟨by omega, by omega⟩
  refine ⟨⟨wider, by omega, fun id present => (cases present).imp_right And.left⟩,
    fun id present => ?_, next⟩
  rcases cases present with old | ⟨-, before⟩
  · have known := below id old
    omega
  · exact before

end BranchProgress

namespace Correspondence

/-- Entities are made for nodes that are not mapped. -/
theorem Explained.created_subset {map : Correspondence} {relation : Relation} {catalog : Catalog}
    {plan : BranchPlan} (explained : map.Explained relation catalog plan) {law : Law}
    (listed : catalog.law? map.law = some law) :
    plan.steps.filterMap BranchStep.created? ⊆ map.unmapped law := by
  intro id made
  obtain ⟨step, planned, found⟩ := List.mem_filterMap.1 made
  obtain ⟨node, lacks⟩ := explained.lacks step planned
  have about : step.node = id := by
    cases step with
    | reuse node entity => cases found
    | create node head reference => exact Option.some.inj found
    | formula node owner => cases found
  rw [about] at lacks
  have present : law.node? id = some node := by
    simpa [Catalog.lawNode?, listed] using lacks.named
  obtain ⟨inLaw, same⟩ := Law.node?_eq_some present
  exact List.mem_filter.2 ⟨List.mem_map.2 ⟨node, inLaw, same⟩, by simp [lacks.unmapped]⟩

end Correspondence

namespace Correspondence

/-- What a node resolves to is there. -/
theorem Resolves.contains {map : Correspondence} {relation : Relation} {catalog : Catalog}
    {id : LawNodeId} {entity : EntityId} (resolves : map.Resolves relation catalog id entity)
    (named : relation.Named) : relation.contains entity = true := by
  cases resolves with
  | mapped held present => exact present
  | owned unmapped held present => exact present
  | again lacks plain above found taken claimed =>
    exact Relation.contains_existingChild? named found

end Correspondence

namespace BranchProgress.Carries

variable {map : Correspondence} {relation : Relation} {catalog : Catalog} {plan : BranchPlan}
  {progress : BranchProgress}

section Nodes

variable (carries : progress.Carries map relation catalog plan) (seated : map.Seated relation)
  (named : relation.Named) (below : relation.Below)

include carries seated named below

/-- By induction on why a node has its slot: after the branch it resolves to what the slot stands for.
-/
theorem resolves_of_explains (placed : plan.Placed relation) {id : LawNodeId} {slot : BranchSlot}
    (explains : map.Explains relation catalog plan.steps id slot) :
    ∃ entity, progress.resolve? slot = some entity ∧
      (after map plan progress).Resolves (later map plan progress) catalog id entity := by
  have stays := map.stays_adopt (pairs plan progress) progress.formulas
  have gains := carries.gains_later
  induction explains with
  | mapped held present =>
    exact ⟨_, rfl, .mapped (stays.kept _ _ held) (gains.contains present)⟩
  | owned unmapped held present =>
    refine ⟨_, rfl, .owned (carries.untouched (fun step listed same => ?_) unmapped)
      (carries.formulas_after.2 (.inl held)) (gains.contains present)⟩
    obtain ⟨node, lacks⟩ := carries.explained.lacks step listed
    rw [same] at lacks
    cases held.symm.trans lacks.unowned
  | formula lacks data leads _ listed ih =>
    obtain ⟨entity, resolved, resolves⟩ := ih
    obtain ⟨unmapped, formula, held, owns⟩ := carries.formula_added listed
    obtain rfl := Option.some.inj (owns.symm.trans resolved)
    exact ⟨_, owns, .owned unmapped held (resolves.contains (gains.wider.named named))⟩
  | @reuse id node slots entity lacks plain _ found listed ih =>
    have led (side : Side) : ∃ parent : EntityId, ∀ above, node.parent side = some above →
        progress.resolve? (slots side) = some parent ∧
          (after map plan progress).Resolves (later map plan progress) catalog above parent := by
      cases leads : node.parent side with
      | none => exact ⟨⟨0⟩, fun above same => by cases same⟩
      | some parent =>
        obtain ⟨entity, resolved, resolves⟩ := ih side parent leads
        refine ⟨entity, fun above same => ?_⟩
        rw [← Option.some.inj same]
        exact ⟨resolved, resolves⟩
    choose parents leads using led
    -- the child was searched for below parents that are there already
    have there {side : Side} {parent : LawNodeId} {place : EntityId}
        (leadsTo : node.parent side = some parent)
        (stands : node.along slots side = some (.entity place)) :
        slots side = .entity (parents side) := by
      have slot : slots side = .entity place :=
        Option.some.inj ((LawNode.along_of_parent leadsTo slots).symm.trans stands)
      have resolved := (leads side parent leadsTo).1
      rw [slot] at resolved ⊢
      exact congrArg BranchSlot.entity (Option.some.inj resolved)
    have same : ∀ side, node.along slots side = node.along (fun side => .entity (parents side)) side := by
      obtain ⟨above, target, headed, needed, -⟩ := Relation.existingChild?_eq_some.1 found
      refine LawNode.along_congr fun side parent leadsTo => ?_
      cases side with
      | head => exact there leadsTo headed
      | reference =>
        rcases needed with ⟨rootless, -⟩ | ⟨-, other, referred, -⟩
        · cases rootless.symm.trans leadsTo
        · exact there leadsTo referred
    rw [same .head, same .reference] at found
    have again := gains.existingChild? named below found
    have present := Relation.contains_existingChild? named found
    have member : (⟨entity, id⟩ : Pair) ∈ pairs plan progress :=
      List.mem_append_left _ (List.mem_filterMap.2 ⟨_, listed, rfl⟩)
    refine ⟨entity, rfl, ?_⟩
    rcases carries.recorded seated.paired member with held | ⟨open_, place, taken⟩
    · exact .mapped held (gains.contains present)
    · refine .again ⟨open_, carries.unowned_of_plain lacks plain, ?_⟩ plain
        (fun side parent leadsTo => (leads side parent leadsTo).2) again taken
        fun other held => carries.claimed_later present (.inr ⟨id, listed⟩) held
      rw [stays.law]
      exact lacks.named
  | create lacks plain _ missing place ih =>
    obtain ⟨entity, made, created⟩ := carries.yields.made _ _ _ _ place
    have present := carries.yields.present _ created
    have kept := (Relation.sameEntities_foldl_claim map
      (plan.steps.filterMap BranchStep.reused?) progress.relation).gains.contains present
    exact ⟨entity, made, .mapped (carries.mapped_created seated placed created) kept⟩

/-- A node that resolved before resolves to the same entity after the branch. -/
theorem resolves_mono {id : LawNodeId} {entity : EntityId}
    (resolves : map.Resolves relation catalog id entity) :
    (after map plan progress).Resolves (later map plan progress) catalog id entity := by
  have stays := map.stays_adopt (pairs plan progress) progress.formulas
  have paired := stays.paired seated.paired
  have gains := carries.gains_later
  induction resolves with
  | mapped held present => exact .mapped (stays.kept _ _ held) (gains.contains present)
  | owned unmapped held present =>
    refine .owned (carries.untouched (fun step listed same => ?_) unmapped)
      (carries.formulas_after.2 (.inl held)) (gains.contains present)
    obtain ⟨node, lacks⟩ := carries.explained.lacks step listed
    rw [same] at lacks
    cases held.symm.trans lacks.unowned
  | @again id place node parents entity lacks plain above found taken claimed ih =>
    have resolves : map.Resolves relation catalog id entity :=
      .again lacks plain above found taken claimed
    have takenToo : (after map plan progress).nodeOf[entity]? = some place :=
      (paired _ _).2 (stays.kept _ _ ((seated.paired _ _).1 taken))
    -- if the branch is about the node it reuses the same entity, which is not recorded again
    have open_ : (after map plan progress).entityOf[id]? = none := by
      refine Option.eq_none_iff_forall_ne_some.2 fun other held => ?_
      have new := (mapped_cases held).resolve_left fun old => by cases lacks.unmapped.symm.trans old
      have planned : id ∈ plan.slots := by
        rcases carries.exists_step new with reused | ⟨-, _, _, created⟩
        · exact carries.laid.noted _ reused
        · exact carries.laid.noted _ created
      obtain ⟨slot, slotted⟩ :=
        Option.isSome_iff_exists.1 (Std.ExtTreeMap.mem_iff_isSome_getElem?.1 planned)
      have explains := carries.explained.slots id slot slotted
      obtain rfl := resolves.explained explains
      have listed : .reuse id entity ∈ plan.steps := by
        cases explains with
        | mapped held _ => cases lacks.unmapped.symm.trans held
        | owned _ held _ => cases lacks.unowned.symm.trans held
        | formula lacksToo data _ _ _ =>
          obtain rfl := Option.some.inj (lacks.named.symm.trans lacksToo.named)
          cases plain.symm.trans data
        | reuse _ _ _ _ listed => exact listed
      have member : (⟨entity, id⟩ : Pair) ∈ pairs plan progress :=
        List.mem_append_left _ (List.mem_filterMap.2 ⟨_, listed, rfl⟩)
      have same : (⟨other, id⟩ : Pair) = ⟨entity, id⟩ :=
        List.inj_on_of_nodup_map carries.nodup_pairs new member rfl
      obtain rfl : other = entity := congrArg Pair.entity same
      have here := Option.some.inj (takenToo.symm.trans ((paired _ _).2 held))
      rw [here] at taken
      cases lacks.unmapped.symm.trans ((seated.paired _ _).1 taken)
    refine .again ⟨open_, carries.unowned_of_plain lacks plain, ?_⟩ plain ih
      (gains.existingChild? named below found) takenToo fun other held =>
        carries.claimed_later (Relation.contains_existingChild? named found) (.inl claimed) held
    rw [stays.law]
    exact lacks.named

end Nodes

/-- Every entity that is made takes a node that was not mapped. -/
theorem length_unmapped_add (carries : progress.Carries map relation catalog plan)
    (valid : catalog.Valid) (seated : map.Seated relation) (placed : plan.Placed relation)
    {law : Law} (listed : catalog.law? map.law = some law) :
    ((after map plan progress).unmapped law).length + progress.created.length ≤
      (map.unmapped law).length := by
  have member := (Catalog.law?_eq_some listed).1
  have ids : (law.nodes.map LawNode.id).Nodup :=
    (List.nodup_flatMap.1 valid.distinct.nodeIds.1).1 law member
  have stays := map.stays_adopt (pairs plan progress) progress.formulas
  have nodes : (progress.created.map Pair.node).Nodup := by
    rw [carries.yields.created]
    exact (List.nodup_append'.1 (nodup_adopted carries.laid.distinct)).2.1
  have distinct : ((after map plan progress).unmapped law ++ progress.created.map Pair.node).Nodup := by
    refine List.nodup_append'.2 ⟨ids.filter _, nodes, fun id open_ made => ?_⟩
    obtain ⟨pair, created, rfl⟩ := List.mem_map.1 made
    have held := carries.mapped_created seated placed created
    simp [Correspondence.unmapped, held] at open_
  have among : (after map plan progress).unmapped law ++ progress.created.map Pair.node ⊆
      map.unmapped law := by
    intro id either
    rcases List.mem_append.1 either with open_ | made
    · unfold Correspondence.unmapped at open_ ⊢
      obtain ⟨inLaw, free⟩ := List.mem_filter.1 open_
      refine List.mem_filter.2 ⟨inLaw, ?_⟩
      rw [Option.isNone_iff_eq_none] at free ⊢
      refine Option.eq_none_iff_forall_ne_some.2 fun entity held => ?_
      cases free.symm.trans (stays.kept _ _ held)
    · rw [carries.yields.created] at made
      exact carries.explained.created_subset listed made
  have fewer := (List.subperm_of_subset distinct among).length_le
  simpa using fewer

end BranchProgress.Carries

/-! ## Appending once -/

namespace PassState

variable {context : PassContext} {state : PassState} {id : MapId} {map : Correspondence}

/-- A satisfied correspondence whose branches can be carried out: there are identifiers for all the
nodes that are not mapped. -/
structure Ready (state : PassState) (catalog : Catalog) (id : MapId) (map : Correspondence) :
    Prop where
  found : state.matcher.get? id = some map
  named : map.id = id
  satisfied : map.satisfied = true
  seated : map.Seated state.relation
  entities : state.relation.Named
  below : state.relation.Below
  room : ∀ law, catalog.law? map.law = some law →
    state.relation.nextId.toNat + (map.unmapped law).length < UInt64.size

theorem Ready.within {catalog : Catalog} (ready : state.Ready catalog id map) :
    map.Within state.relation where
  mapped := fun _ entity held => ready.seated.present entity (ready.seated.mem_nodeOf held)
  owned := fun node formula held => ready.seated.present _ (ready.seated.owned node formula held)

/-- The branch of a conclusion is carried out. -/
theorem Ready.carries (ready : state.Ready context.catalog id map) (valid : context.catalog.Valid)
    {node : LawNodeId} (concluded : node ∈ context.catalog.conclusions map.law) :
    ∃ slot plan progress,
      map.planBranch? state.relation context.catalog node = some (slot, plan) ∧
      state.appendBranch context id node =
        (progress.resolve? slot, state.adopt map plan.steps progress) ∧
      (BranchProgress.start state.relation).run context.catalog map plan.steps = (true, progress) ∧
      progress.Carries map state.relation context.catalog plan ∧ plan.Placed state.relation ∧
      progress.relation.Below ∧ progress.relation.nextId.toNat =
        state.relation.nextId.toNat + progress.created.length := by
  obtain ⟨law, -, listed, -⟩ := valid.exists_conclusion concluded
  obtain ⟨slot, plan, planned⟩ := Correspondence.exists_planBranch? valid ready.within concluded
  have laid := Correspondence.laid_planBranch? valid ready.entities planned
  obtain ⟨explained, -⟩ := Correspondence.explained_planBranch? planned
  have placed : plan.Placed state.relation :=
    Correspondence.placed_planNode ready.entities _ (fun _ member => by cases member) planned
  have room : state.relation.nextId.toNat + plan.steps.countP BranchStep.creates < UInt64.size := by
    have distinct := (List.nodup_append'.1 (nodup_adopted laid.distinct)).2.1
    have fewer := (List.subperm_of_subset distinct (explained.created_subset listed)).length_le
    have enough := ready.room law listed
    rw [BranchStep.countP_creates]
    omega
  have unused : ∀ earlier < plan.steps.countP BranchStep.creates,
      state.relation.contains (Identifier.next^[earlier] state.relation.nextId) = false := by
    refine fun earlier before => Bool.eq_false_iff.2 fun present => ?_
    have known := ready.below _ present
    rw [Identifier.toNat_iterate_next, Nat.mod_eq_of_lt (by omega)] at known
    omega
  have start := BranchProgress.stands_start state.relation map.tentative
  obtain ⟨progress, ran, stands⟩ : ∃ progress, (BranchProgress.start state.relation).run
      context.catalog map plan.steps = (true, progress) ∧
        progress.Stands state.relation map.tentative plan.steps :=
    start.run valid laid.steps laid.countP_creates_le unused
  have wider := BranchProgress.extends_run context.catalog map plan.steps (.start state.relation)
  rw [ran] at wider
  obtain ⟨gains, below, next⟩ := stands.gains wider ready.below room
  have yields : progress.Yields plan.steps :=
    (BranchProgress.yields_start state.relation).run ran
  have count : plan.steps.countP BranchStep.creates = progress.created.length := by
    rw [BranchStep.countP_creates, ← yields.created, List.length_map]
  exact ⟨slot, plan, progress, planned, appendBranch_eq ready.found planned ran, ran,
    ⟨laid, explained, yields, stands.adds, gains⟩, placed, below, count ▸ next⟩

/-- After the branch its node is resolved, and what was resolved before still is. -/
theorem Ready.appendBranch (ready : state.Ready context.catalog id map)
    (valid : context.catalog.Valid) {node : LawNodeId}
    (concluded : node ∈ context.catalog.conclusions map.law) :
    ∃ entity after, (state.appendBranch context id node).1 = some entity ∧
      (state.appendBranch context id node).2.Ready context.catalog id after ∧ map.Stays after ∧
      after.Resolves (state.appendBranch context id node).2.relation context.catalog node entity ∧
      ∀ other place, map.Resolves state.relation context.catalog other place →
        after.Resolves (state.appendBranch context id node).2.relation context.catalog other
          place := by
  obtain ⟨slot, plan, progress, planned, branch, ran, carries, placed, below, next⟩ :=
    ready.carries valid concluded
  obtain ⟨entity, resolved, resolves⟩ := carries.resolves_of_explains ready.seated ready.entities
    ready.below placed (Correspondence.explained_planBranch? planned).2
  have stays := map.stays_adopt (BranchProgress.Carries.pairs plan progress) progress.formulas
  have same := Relation.sameEntities_foldl_claim map (plan.steps.filterMap BranchStep.reused?)
    progress.relation
  have seated := (ready.seated.append valid ready.entities ready.satisfied planned ran).1
  rw [branch]
  refine ⟨entity, _, resolved, ⟨get?_adopt ready.found ready.named plan.steps progress,
    stays.id.trans ready.named, stays.satisfied.trans ready.satisfied,
    seated.extend fun _ there => same.gains.contains there,
    carries.gains_later.wider.named ready.entities, fun id present => ?_, fun law listed => ?_⟩,
    stays, resolves, fun other place before => ?_⟩
  · change id.toNat < (BranchProgress.Carries.later map plan progress).nextId.toNat
    rw [same.next]
    exact below id (same.fewer id present)
  · rw [stays.law] at listed
    have fewer := carries.length_unmapped_add valid ready.seated placed listed
    have enough := ready.room law listed
    change (BranchProgress.Carries.later map plan progress).nextId.toNat +
      ((BranchProgress.Carries.after map plan progress).unmapped law).length < UInt64.size
    rw [same.next, next]
    omega
  · exact carries.resolves_mono ready.seated ready.entities ready.below before

/-- By induction on the branches: all conclusions are resolved in the end. -/
theorem Ready.appendAll (valid : context.catalog.Valid) (nodes : List LawNodeId) :
    ∀ {state : PassState} {map : Correspondence}, state.Ready context.catalog id map →
      (∀ node ∈ nodes, node ∈ context.catalog.conclusions map.law) →
      ∃ after, (appendAll context id nodes state).2.Ready context.catalog id after ∧
        map.Stays after ∧
        List.Forall₂ (fun node result => ∃ entity, result = some entity ∧
          after.Resolves (appendAll context id nodes state).2.relation context.catalog node entity)
          nodes (appendAll context id nodes state).1 ∧
        ∀ other place, map.Resolves state.relation context.catalog other place →
          after.Resolves (appendAll context id nodes state).2.relation context.catalog other
            place := by
  induction nodes with
  | nil => exact fun {_ map} ready _ => ⟨map, ready, map.stays_refl, .nil, fun _ _ held => held⟩
  | cons first rest ih =>
    intro state map ready concluded
    obtain ⟨entity, middle, led, readyMiddle, stays, resolves, kept⟩ :=
      ready.appendBranch valid (concluded first List.mem_cons_self)
    obtain ⟨after, readyAfter, staysToo, results, keptToo⟩ := ih readyMiddle fun node member =>
      stays.law ▸ concluded node (List.mem_cons_of_mem first member)
    exact ⟨after, readyAfter, stays.trans staysToo,
      .cons ⟨entity, led, keptToo first entity resolves⟩ results,
      fun other place held => keptToo other place (kept other place held)⟩

/-! ## Appending again -/

end PassState

namespace PassState

variable {context : PassContext} {state : PassState} {id : MapId} {map : Correspondence}

/-- The state once it is known what the conclusions led to. -/
def conclude (state : PassState) (id : MapId) (results : List (Option EntityId)) : PassState :=
  { state with matcher := state.matcher.update id fun map =>
      { map with conclusions := results.filterMap fun result => result } }

/-- Once it is marked satisfied, a correspondence with room for its branches is ready. -/
theorem exists_ready {catalog : Catalog} (found : state.matcher.get? id = some map)
    (named : map.id = id) (seated : map.Seated state.relation) (entities : state.relation.Named)
    (below : state.relation.Below)
    (room : ∀ law ∈ catalog.laws, state.relation.nextId.toNat + law.nodes.length < UInt64.size) :
    ∃ marked, (state.markSatisfied context map).Ready catalog id marked ∧ map.Grows marked := by
  have enough (other : Correspondence) (law : Law) (listed : catalog.law? other.law = some law) :
      state.relation.nextId.toNat + (other.unmapped law).length < UInt64.size := by
    have fewer : (other.unmapped law).length ≤ law.nodes.length := by
      unfold Correspondence.unmapped
      exact (List.length_filter_le _ _).trans (List.length_map _).le
    have known := room law (Catalog.law?_eq_some listed).1
    omega
  unfold markSatisfied
  split
  · rename_i satisfied
    exact ⟨map, ⟨found, named, satisfied, seated, entities, below, enough map⟩, map.grows_refl⟩
  · refine ⟨{ map with satisfied := true, tentative := context.tentative }, ⟨?_, named, rfl,
      ⟨seated.paired, seated.present, seated.owned, fun _ _ _ => rfl⟩, entities, below,
      enough _⟩, ⟨rfl, rfl, rfl, fun _ _ held => held,
      fun paired => paired⟩⟩
    dsimp only
    rw [Matcher.get?_update, if_pos named.symm, found]
    rfl

theorem append_of_found (found : state.matcher.get? id = some map) :
    state.append context id =
      ((appendAll context id (context.catalog.conclusions map.law)
          (state.markSatisfied context map)).1,
        (appendAll context id (context.catalog.conclusions map.law)
          (state.markSatisfied context map)).2.conclude id
            (appendAll context id (context.catalog.conclusions map.law)
              (state.markSatisfied context map)).1) := by
  unfold append
  rw [found]
  rfl

end PassState

/-! ## Whatever was done before -/

namespace Matcher

/-- Accepting a correspondence leaves the entities where they are. -/
theorem get?_setTentative {matcher later : Matcher} {relation after : Relation} {id : MapId}
    {tentative : Bool} (done : matcher.setTentative relation id tentative = .ok (later, after))
    (query : EntityId) : ∃ change : Entity → Entity, (∀ entity, (change entity).id = entity.id) ∧
      after.get? query = (relation.get? query).map change := by
  obtain ⟨-, rfl⟩ := setTentative_eq_ok done
  let settle : EntityId → Entity → Entity := fun _ entity =>
    if claims id entity then later.resettle entity else entity
  have settled (entity : Entity) : (settle query entity).id = entity.id := by
    change (if claims id entity then later.resettle entity else entity).id = entity.id
    split
    · rfl
    · rfl
  have mapped : ({ relation with entities := relation.entities.map settle } : Relation).get? query =
      (relation.get? query).map (settle query) := Std.ExtTreeMap.getElem?_map
  rw [Relation.get?_recomputeDeep, mapped, Option.map_map]
  refine ⟨_, ?_, rfl⟩
  exact settled

theorem Housed.setTentative {matcher later : Matcher} {relation after : Relation}
    (housed : matcher.Housed relation) (entities : relation.Named) {id : MapId} {tentative : Bool}
    (done : matcher.setTentative relation id tentative = .ok (later, after)) :
    later.Housed after ∧ after.Named := by
  have changed := get?_setTentative done
  obtain ⟨rfl, -⟩ := setTentative_eq_ok done
  have updated : (matcher.update id fun map => { map with tentative := tentative }).Housed
      relation := by
    refine housed.update id (fun _ => rfl) fun map held => ?_
    have seated := housed.maps id map held
    exact ⟨seated.paired, seated.present, seated.owned, seated.satisfied⟩
  refine ⟨updated.extend fun query present => ?_, fun query entity found => ?_⟩
  · obtain ⟨change, -, same⟩ := changed query
    obtain ⟨entity, found⟩ := Relation.contains_iff.1 present
    exact Relation.contains_iff.2 ⟨change entity, by rw [same, found]; rfl⟩
  · obtain ⟨change, kept, same⟩ := changed query
    rw [same] at found
    obtain ⟨before, held, rfl⟩ := Option.map_eq_some_iff.1 found
    exact (kept before).trans (entities query before held)

/-- Passes are made under the catalog. -/
def Action.Under (catalog : Catalog) : Action → Prop
  | evaluate other _ _ => other = catalog
  | setTentative _ _ => True

theorem Housed.performAll {catalog : Catalog} (valid : catalog.Valid) (actions : List Action) :
    ∀ {state : Matcher × Relation}, state.1.Housed state.2 → state.2.Named →
      (∀ action ∈ actions, action.Under catalog) →
        (Matcher.performAll state actions).1.Housed (Matcher.performAll state actions).2 ∧
          (Matcher.performAll state actions).2.Named := by
  induction actions with
  | nil => exact fun housed entities _ => ⟨housed, entities⟩
  | cons first rest ih =>
    intro state housed entities under
    obtain ⟨here, later⟩ := List.forall_mem_cons.1 under
    have once : (perform state first).1.Housed (perform state first).2 ∧
        (perform state first).2.Named := by
      cases first with
      | evaluate other options dirty =>
        obtain rfl : other = catalog := here
        exact housed.evaluate entities valid options dirty
      | setTentative map tentative =>
        unfold perform
        dsimp only
        split
        · exact ⟨housed, entities⟩
        · rename_i done
          exact housed.setTentative entities done
    exact ih once.1 once.2 later

end Matcher

end ConceptLaws
