import ConceptLaws.Proofs.Correspondence.Growth
import ConceptLaws.Proofs.Correspondence.Retracing

/-! Conclusions that are appended.
Appending changes one correspondence of the matcher, adds entities at the end of the list of what was
appended, and uses up an identifier for each. In a firm relation all branches are applied, so that
the correspondence retraces its conclusions afterwards; where it did so before, nothing is appended.
-/

namespace ConceptLaws

theorem Relation.sameEntities_foldl_claim (map : Correspondence) (pairs : List Pair)
    (relation : Relation) : relation.SameEntities
      (pairs.foldl (fun relation pair => relation.update pair.entity (Entity.claim map))
        relation) := by
  induction pairs generalizing relation with
  | nil => exact relation.sameEntities_refl
  | cons first rest ih =>
    exact (relation.sameEntities_update first.entity (Entity.alike_claim map)).trans (ih _)

namespace Correspondence

theorem formulas_foldl_record (pairs : List Pair) (map : Correspondence) :
    (pairs.foldl record map).formulas = map.formulas := by
  induction pairs generalizing map with
  | nil => rfl
  | cons first rest ih =>
    refine (ih _).trans ?_
    rcases map.record_cases first with same | ⟨-, -, added⟩
    · rw [same]
    · rw [added]

/-- What is found after entries were put in was there before or is one of them. -/
theorem getElem?_insertMany_cases {entries : List (LawNodeId × Formula)} {node : LawNodeId}
    {formula : Formula} : ∀ {formulas : Std.ExtTreeMap LawNodeId Formula},
      (formulas.insertMany entries)[node]? = some formula →
        formulas[node]? = some formula ∨ (node, formula) ∈ entries := by
  induction entries with
  | nil =>
    intro formulas held
    rw [Std.ExtTreeMap.insertMany_nil] at held
    exact Or.inl held
  | cons first rest ih =>
    intro formulas held
    obtain ⟨key, value⟩ := first
    rw [Std.ExtTreeMap.insertMany_cons] at held
    rcases ih held with before | later
    · rw [Std.ExtTreeMap.getElem?_insert] at before
      split at before
      · rename_i same
        obtain rfl := Option.some.inj before
        obtain rfl := Std.compare_eq_iff_eq.1 same
        exact Or.inr List.mem_cons_self
      · exact Or.inl before
    · exact Or.inr (List.mem_cons_of_mem _ later)

theorem Within.gains {map : Correspondence} {relation later : Relation}
    (within : map.Within relation) (gains : relation.Gains later) : map.Within later :=
  ⟨fun node entity held => gains.contains (within.mapped node entity held),
    fun node formula held => gains.contains (within.owned node formula held)⟩

/-- What is taken over is there. -/
theorem Within.adopt {map : Correspondence} {relation : Relation} (within : map.Within relation)
    {pairs : List Pair} {formulas : List (LawNodeId × Formula)}
    (mapped : ∀ pair ∈ pairs, relation.contains pair.entity = true)
    (owned : ∀ entry ∈ formulas, relation.contains entry.2.owner = true) :
    (map.adopt pairs formulas).Within relation where
  mapped := by
    intro node entity held
    rcases mapped_foldl_record held with before | listed
    · exact within.mapped node entity before
    · exact mapped ⟨entity, node⟩ listed
  owned := by
    intro node formula held
    unfold Correspondence.adopt at held
    rcases getElem?_insertMany_cases held with before | listed
    · rw [formulas_foldl_record] at before
      exact within.owned node formula before
    · exact owned (node, formula) listed

/-- What a settled branch leads to was reached by its steps. -/
theorem Within.adopt_settle {map : Correspondence} {later : Relation} {catalog : Catalog}
    (within : map.Within later) {plan : BranchPlan} {progress : BranchProgress}
    (there : ∀ entity ∈ progress.made, later.contains entity = true) :
    (map.adopt ((plan.settle progress.made).steps.filterMap BranchStep.reused?)
      ((plan.settle progress.made).steps.filterMap
        (BranchStep.inferred? catalog map.law))).Within later := by
  apply within.adopt
  · intro pair member
    obtain ⟨step, listed, reused⟩ := List.mem_filterMap.1 member
    obtain ⟨first, -, entity, made, rfl⟩ := mem_settle listed
    cases first with
    | reuse node other =>
      obtain rfl := Option.some.inj reused
      exact there entity made
    | create node head reference =>
      obtain rfl := Option.some.inj reused
      exact there entity made
    | formula node owner => cases reused
  · intro entry member
    obtain ⟨step, listed, inferred⟩ := List.mem_filterMap.1 member
    obtain ⟨first, -, entity, made, rfl⟩ := mem_settle listed
    cases first with
    | reuse node other => cases inferred
    | create node head reference => cases inferred
    | formula node owner =>
      obtain ⟨source, -, rfl⟩ := Option.map_eq_some_iff.1 inferred
      exact there entity made

end Correspondence

/-! ## What appending changes -/

/-- Only the correspondence under the identifier changed, and that ripened. -/
structure Matcher.RipensAt (matcher later : Matcher) (id : MapId) : Prop where
  next : later.nextMap = matcher.nextMap
  limit : later.maxChecks = matcher.maxChecks
  checks : later.checks = matcher.checks
  checked : later.checked = matcher.checked
  registry : later.registry = matcher.registry
  others : ∀ query, query ≠ id → later.get? query = matcher.get? query
  ripens : Option.Rel Correspondence.Ripens (matcher.get? id) (later.get? id)

namespace Matcher

variable {matcher later : Matcher} {id : MapId}

theorem ripensAt_refl (matcher : Matcher) (id : MapId) : matcher.RipensAt matcher id where
  next := rfl
  limit := rfl
  checks := rfl
  checked := rfl
  registry := rfl
  others := fun _ _ => rfl
  ripens := by
    cases matcher.get? id with
    | none => exact .none
    | some map => exact .some map.ripens_refl

theorem RipensAt.of_get? (ripens : matcher.RipensAt later id) {map : Correspondence}
    (found : matcher.get? id = some map) :
    ∃ after, later.get? id = some after ∧ map.Ripens after := by
  have related := ripens.ripens
  rw [found] at related
  cases held : later.get? id with
  | none =>
    rw [held] at related
    cases related
  | some after =>
    rw [held] at related
    cases related with
    | some grows => exact ⟨after, rfl, grows⟩

theorem RipensAt.origin (ripens : matcher.RipensAt later id) {after : Correspondence}
    (found : later.get? id = some after) :
    ∃ map, matcher.get? id = some map ∧ map.Ripens after := by
  have related := ripens.ripens
  rw [found] at related
  cases held : matcher.get? id with
  | none =>
    rw [held] at related
    cases related
  | some map =>
    rw [held] at related
    cases related with
    | some grows => exact ⟨map, rfl, grows⟩

theorem RipensAt.trans {first second third : Matcher} (earlier : first.RipensAt second id)
    (later : second.RipensAt third id) : first.RipensAt third id where
  next := later.next.trans earlier.next
  limit := later.limit.trans earlier.limit
  checks := later.checks.trans earlier.checks
  checked := later.checked.trans earlier.checked
  registry := later.registry.trans earlier.registry
  others := fun query different =>
    (later.others query different).trans (earlier.others query different)
  ripens := by
    have related := earlier.ripens
    cases held : first.get? id with
    | none =>
      cases heldToo : third.get? id with
      | none => exact .none
      | some after =>
        obtain ⟨middle, found, -⟩ := later.origin heldToo
        obtain ⟨map, foundFirst, -⟩ := earlier.origin found
        cases held.symm.trans foundFirst
    | some map =>
      obtain ⟨middle, found, ripens⟩ := earlier.of_get? held
      obtain ⟨after, foundAfter, further⟩ := later.of_get? found
      rw [foundAfter]
      exact .some (ripens.trans further)

theorem ripensAt_update (matcher : Matcher) (id : MapId) {change : Correspondence → Correspondence}
    (ripens : ∀ map : Correspondence, map.Ripens (change map)) :
    matcher.RipensAt (matcher.update id change) id where
  next := rfl
  limit := rfl
  checks := rfl
  checked := rfl
  registry := rfl
  others := fun query different => by rw [get?_update, if_neg different]
  ripens := by
    rw [get?_update, if_pos rfl]
    cases matcher.get? id with
    | none => exact .none
    | some map => exact .some (ripens map)

end Matcher

namespace PassState

/-- The correspondence, if it is there, is kept under the identifier that it bears. -/
def NamedAt (state : PassState) (id : MapId) : Prop :=
  ∀ map, state.matcher.get? id = some map → map.id = id

variable {context : PassContext} {state later : PassState} {id : MapId}

theorem NamedAt.ripen (named : state.NamedAt id)
    (ripens : state.matcher.RipensAt later.matcher id) : later.NamedAt id := by
  intro after found
  obtain ⟨map, held, grows⟩ := ripens.origin found
  exact grows.id.trans (named map held)

theorem NamedAt.ripensAt_markSatisfied (named : state.NamedAt id) {map : Correspondence}
    (found : state.matcher.get? id = some map) (context : PassContext) :
    state.matcher.RipensAt (state.markSatisfied context map).matcher id := by
  unfold markSatisfied
  split
  · exact state.matcher.ripensAt_refl id
  · rw [named map found]
    exact state.matcher.ripensAt_update id fun _ =>
      ⟨⟨rfl, rfl, rfl, fun _ _ held => held, fun paired => paired⟩, fun _ => rfl⟩

theorem NamedAt.ripensAt_appendBranch (named : state.NamedAt id) (context : PassContext)
    (node : LawNodeId) :
    state.matcher.RipensAt (state.appendBranch context id node).2.matcher id := by
  obtain ⟨-, same | ⟨map, pairs, formulas, found, adopted⟩⟩ := state.appendBranch_cases context id node
  · rw [same]
    exact state.matcher.ripensAt_refl id
  · rw [adopted, named map found]
    exact state.matcher.ripensAt_update id fun map =>
      ⟨(map.stays_adopt pairs formulas).toGrows, fun satisfied =>
        (map.stays_adopt pairs formulas).satisfied.trans satisfied⟩

theorem NamedAt.ripensAt_appendAll (nodes : List LawNodeId) : ∀ {state : PassState},
    state.NamedAt id →
      state.matcher.RipensAt (appendAll context id nodes state).2.matcher id := by
  induction nodes with
  | nil => exact fun _ => Matcher.ripensAt_refl _ id
  | cons first rest ih =>
    intro state named
    have head := named.ripensAt_appendBranch context first
    exact head.trans (ih (named.ripen head))

/-- After its conclusions were appended a correspondence is satisfied. -/
theorem NamedAt.ripensAt_append (named : state.NamedAt id) (context : PassContext) :
    state.matcher.RipensAt (state.append context id).2.matcher id ∧
      ∀ after, (state.append context id).2.matcher.get? id = some after →
        after.satisfied = true := by
  have settled := state.settles_satisfyAt context id
  unfold append satisfyAt at *
  cases found : state.matcher.get? id with
  | none =>
    refine ⟨state.matcher.ripensAt_refl id, fun after held => ?_⟩
    cases found.symm.trans held
  | some map =>
    rw [found] at settled
    dsimp only at settled ⊢
    have marked := named.ripensAt_markSatisfied found context
    have namedToo := named.ripen marked
    have branches : (state.markSatisfied context map).matcher.RipensAt (appendAll context id
        (context.catalog.conclusions map.law) (state.markSatisfied context map)).2.matcher id :=
      namedToo.ripensAt_appendAll _
    generalize appendAll context id (context.catalog.conclusions map.law)
      (state.markSatisfied context map) = outcome at *
    have concluded : outcome.2.matcher.RipensAt (outcome.2.matcher.update id fun map =>
        { map with conclusions := outcome.1.filterMap fun result => result }) id :=
      outcome.2.matcher.ripensAt_update id fun _ =>
        ⟨⟨rfl, rfl, rfl, fun _ _ held => held, fun paired => paired⟩, fun satisfied => satisfied⟩
    refine ⟨(marked.trans branches).trans concluded, fun after held => ?_⟩
    obtain ⟨before, there, ripens⟩ := (branches.trans concluded).origin held
    exact ripens.satisfied (settled before there (namedToo before there))

/-! ## What is appended -/

theorem isPrefix_appended_appendBranch (context : PassContext) (state : PassState) (id : MapId)
    (node : LawNodeId) :
    state.outcome.appended <+: (state.appendBranch context id node).2.outcome.appended := by
  unfold appendBranch
  split
  · exact List.prefix_refl _
  split
  · exact List.prefix_refl _
  unfold commit
  split
  · exact List.prefix_refl _
  split
  · exact List.prefix_refl _
  · exact List.prefix_append _ _

theorem isPrefix_appended_appendAll (context : PassContext) (id : MapId) (nodes : List LawNodeId)
    (state : PassState) :
    state.outcome.appended <+: (appendAll context id nodes state).2.outcome.appended := by
  induction nodes generalizing state with
  | nil => exact List.prefix_refl _
  | cons first rest ih =>
    exact (isPrefix_appended_appendBranch context state id first).trans (ih _)

theorem extends_appendAll (context : PassContext) (id : MapId) (nodes : List LawNodeId)
    (state : PassState) :
    state.relation.Extends (appendAll context id nodes state).2.relation := by
  induction nodes generalizing state with
  | nil => exact state.relation.extends_refl
  | cons first rest ih => exact (state.appendBranch_cases context id first).1.trans (ih _)

/-- A branch whose steps all succeed is taken over. -/
theorem appendBranch_eq {map : Correspondence} (found : state.matcher.get? id = some map)
    {node : LawNodeId} {slot : BranchSlot} {plan : BranchPlan}
    (planned : map.planBranch? state.relation context.catalog node = some (slot, plan))
    {progress : BranchProgress}
    (ran : (BranchProgress.start state.relation).run context.catalog map plan.steps =
      (true, progress)) :
    state.appendBranch context id node =
      (progress.resolve? slot, state.adopt map plan.steps progress) := by
  unfold appendBranch
  rw [found]
  dsimp only
  rw [planned]
  dsimp only
  unfold commit
  rw [found]
  dsimp only
  rw [ran]

theorem get?_adopt {map : Correspondence} (found : state.matcher.get? id = some map)
    (named : map.id = id) (steps : List BranchStep) (progress : BranchProgress) :
    (state.adopt map steps progress).matcher.get? id = some (map.adopt
      (steps.filterMap BranchStep.reused? ++ progress.created) progress.formulas) := by
  unfold PassState.adopt
  rw [Matcher.get?_update, if_pos named.symm, found]
  rfl

theorem sameEntities_adopt (map : Correspondence) (steps : List BranchStep)
    (progress : BranchProgress) (state : PassState) :
    progress.relation.SameEntities (state.adopt map steps progress).relation :=
  Relation.sameEntities_foldl_claim map _ _

/-- Marking an open correspondence changes nothing but whether it is satisfied and tentative. -/
theorem markSatisfied_open {map : Correspondence} (found : state.matcher.get? id = some map)
    (named : map.id = id) (open_ : map.satisfied = false) :
    (state.markSatisfied context map).matcher.get? id =
        some { map with satisfied := true, tentative := context.tentative } ∧
      (state.markSatisfied context map).relation = state.relation ∧
      (state.markSatisfied context map).outcome.appended = state.outcome.appended := by
  unfold markSatisfied
  rw [open_]
  refine ⟨?_, rfl, rfl⟩
  dsimp only
  rw [if_neg (by simp), Matcher.get?_update, if_pos named.symm, found]
  rfl

/-- Besides the matcher, appending does what the branches do. -/
theorem append_eq {map : Correspondence} (found : state.matcher.get? id = some map) :
    (state.append context id).2 = { (appendAll context id (context.catalog.conclusions map.law)
      (state.markSatisfied context map)).2 with matcher := (state.append context id).2.matcher } := by
  unfold append
  rw [found]

/-! ## Appending where all is found again -/

/-- Where the branches make no entity, nothing is appended. -/
theorem appendAll_idle {relation : Relation} {nodes : List LawNodeId} {map : Correspondence}
    (retraces : map.Retraces relation context.catalog nodes) : ∀ {state : PassState},
      state.matcher.get? id = some map → map.id = id → relation.Gains state.relation →
        state.relation.SameEntities (appendAll context id nodes state).2.relation ∧
          (appendAll context id nodes state).2.outcome.appended = state.outcome.appended := by
  induction retraces with
  | done map => exact fun _ _ _ => ⟨Relation.sameEntities_refl _, rfl⟩
  | @branch map node rest slot plan planned idle _ ih =>
    intro state found named gains
    obtain ⟨progress, ran, relation_, created, formulas⟩ :=
      BranchProgress.run_idle idle (.start state.relation)
    have branch : (state.appendBranch context id node).2 = state.adopt map plan.steps progress :=
      congrArg Prod.snd (appendBranch_eq found (planned state.relation gains) ran)
    have held := get?_adopt found named plan.steps progress
    have same := sameEntities_adopt map plan.steps progress state
    have unmade : (state.appendBranch context id node).2.outcome.appended =
        state.outcome.appended := by
      rw [branch]
      unfold PassState.adopt
      rw [created]
      exact List.append_nil _
    rw [← branch] at held same
    rw [created, formulas] at held
    rw [relation_] at same
    change _ = some (map.adopt (plan.steps.filterMap BranchStep.reused? ++ []) ([] ++ _)) at held
    rw [List.append_nil, List.nil_append] at held
    have grown := (map.stays_adopt (plan.steps.filterMap BranchStep.reused?)
      (plan.steps.filterMap (BranchStep.inferred? context.catalog map.law))).id
    have further := ih held (grown.trans named) (gains.trans same.gains)
    exact ⟨same.trans further.1, further.2.trans unmade⟩

theorem append_idle {relation : Relation} {map : Correspondence}
    (retraces : map.Retraces relation context.catalog (context.catalog.conclusions map.law))
    (found : state.matcher.get? id = some map) (named : map.id = id)
    (open_ : map.satisfied = false) (gains : relation.Gains state.relation) :
    state.relation.SameEntities (state.append context id).2.relation ∧
      (state.append context id).2.outcome.appended = state.outcome.appended := by
  obtain ⟨marked, same, unmade⟩ := @markSatisfied_open context state id map found named open_
  have coincides : map.Coincides { map with satisfied := true, tentative := context.tentative } :=
    ⟨rfl, rfl, rfl, rfl⟩
  have idle := appendAll_idle (retraces.congr coincides) marked named (same.symm ▸ gains)
  rw [same, unmade] at idle
  rw [append_eq found]
  exact idle

/-! ## Appending in a firm relation -/

end PassState

/-- What a pass starts from: the identifiers of entities from `base` on, at most `given`
correspondences and a budget of `limit` checks. With `again`, conclusions are to be found again. -/
structure Opening where
  base : Nat
  given : Nat
  limit : Nat
  again : Prop

/-- How a pass ends. Identifiers were left for one more branch, and for as many correspondences as
there were checks. If it is to be found again, what was appended is apart. -/
structure Ending (catalog : Catalog) extends Opening where
  relation : Relation
  appended : List EntityId
  apart : again → relation.Apart appended
  room : ∀ law ∈ catalog.laws, base + appended.length + law.nodes.length < UInt64.size
  spare : given + limit < UInt64.size

namespace PassState

variable {context : PassContext} {state later : PassState} {id : MapId}

/-- What is there and what was appended is so in the end. -/
structure Heads (state : PassState) {catalog : Catalog} (ending : Ending catalog) : Prop where
  wider : state.relation.Extends ending.relation
  begun : state.outcome.appended <+: ending.appended

/-- The relation is firm, and an identifier was used up for each entity that was appended. -/
structure Counted (state : PassState) (base : Nat) : Prop where
  firm : state.relation.Firm
  count : state.relation.nextId.toNat = base + state.outcome.appended.length

theorem Heads.appendAll {ending : Ending context.catalog} {nodes : List LawNodeId}
    (heads : (appendAll context id nodes state).2.Heads ending) : state.Heads ending :=
  ⟨(extends_appendAll context id nodes state).trans heads.wider,
    (isPrefix_appended_appendAll context id nodes state).trans heads.begun⟩

/-- A branch is applied, and retraced from then on. -/
theorem Counted.appendBranch {ending : Ending context.catalog} (counted : state.Counted ending.base)
    (valid : context.catalog.Valid) {map : Correspondence}
    (found : state.matcher.get? id = some map) (named : map.id = id)
    (accepted : map.tentative = false) (within : map.Within state.relation) {node : LawNodeId}
    (concluded : node ∈ context.catalog.conclusions map.law)
    (heads : (state.appendBranch context id node).2.Heads ending) :
    (state.appendBranch context id node).2.Counted ending.base ∧
      state.relation.Gains (state.appendBranch context id node).2.relation ∧
      ∃ after, (state.appendBranch context id node).2.matcher.get? id = some after ∧
        map.Stays after ∧ after.Within (state.appendBranch context id node).2.relation ∧
        (ending.again → ∀ (later : Relation) (rest : List LawNodeId),
          (state.appendBranch context id node).2.relation.Gains later →
          after.Retraces later context.catalog rest →
            map.Retraces later context.catalog (node :: rest)) := by
  obtain ⟨slot, plan, planned⟩ := Correspondence.exists_planBranch? valid within concluded
  have laid := Correspondence.laid_planBranch? valid counted.firm.forest.named planned
  obtain ⟨law, -, listed, -⟩ := valid.exists_conclusion concluded
  have short := laid.length_le listed
  have before := (isPrefix_appended_appendBranch context state id node).trans heads.begun
  have enough := ending.room law (Catalog.law?_eq_some listed).1
  have room : state.relation.nextId.toNat + plan.steps.length < UInt64.size := by
    have fewer := before.length_le
    have count := counted.count
    omega
  obtain ⟨progress, ran, applied⟩ :=
    BranchProgress.applied_of_laid valid counted.firm accepted laid room
  have branch : (state.appendBranch context id node).2 = state.adopt map plan.steps progress :=
    congrArg Prod.snd (appendBranch_eq found planned ran)
  have held := get?_adopt found named plan.steps progress
  have same := sameEntities_adopt map plan.steps progress state
  rw [← Correspondence.adopt_settle applied] at held
  rw [branch] at heads ⊢
  have created : (progress.created.map Pair.entity) ⊆ ending.appended := fun entity member =>
    heads.begun.subset (List.mem_append_right _ member)
  refine ⟨⟨same.firm applied.firm, ?_⟩, applied.gains.trans same.gains, _, held, map.stays_adopt _ _,
    ?_, fun again later rest gains further => ?_⟩
  · have appended : (state.adopt map plan.steps progress).outcome.appended.length =
        state.outcome.appended.length + progress.created.length := by
      simp [PassState.adopt]
    rw [same.next, applied.count, counted.count, appended, Nat.add_assoc]
  · exact (within.gains (applied.gains.trans same.gains)).adopt_settle fun entity made =>
      same.gains.contains (applied.there entity made)
  · have apart := (ending.apart again).of_extends (same.wider.trans heads.wider) created
    exact .branch (fun beyond more => Correspondence.planBranch?_settle valid counted.firm planned
      applied apart beyond ((same.gains.trans gains).trans more))
      (Correspondence.idle_settle laid progress.made) further

/-- By induction on the branches: all of them are retraced in the end. -/
theorem Counted.appendAll {ending : Ending context.catalog} (valid : context.catalog.Valid)
    (nodes : List LawNodeId) : ∀ {state : PassState} {map : Correspondence},
      state.Counted ending.base → state.matcher.get? id = some map → map.id = id →
      map.tentative = false → map.Within state.relation →
      (∀ node ∈ nodes, node ∈ context.catalog.conclusions map.law) →
      (appendAll context id nodes state).2.Heads ending →
        (appendAll context id nodes state).2.Counted ending.base ∧
          state.relation.Gains (appendAll context id nodes state).2.relation ∧
          (ending.again →
            map.Retraces (appendAll context id nodes state).2.relation context.catalog nodes) := by
  induction nodes with
  | nil =>
    intro state map counted _ _ _ _ _ _
    exact ⟨counted, state.relation.gains_refl, fun _ => .done map⟩
  | cons first rest ih =>
    intro state map counted found named accepted within concluded heads
    obtain ⟨countedToo, gains, after, held, stays, withinToo, retraces⟩ := counted.appendBranch valid
      found named accepted within (concluded first List.mem_cons_self)
      (@Heads.appendAll context (state.appendBranch context id first).2 id ending rest heads)
    obtain ⟨countedLast, further, retracesRest⟩ := ih countedToo held (stays.id.trans named)
      (stays.tentative.trans accepted) withinToo
      (fun node member => stays.law ▸ concluded node (List.mem_cons_of_mem first member)) heads
    exact ⟨countedLast, gains.trans further, fun again =>
      retraces again _ rest further (retracesRest again)⟩

/-- What is appended for an open correspondence is retraced from then on. -/
theorem Counted.append {ending : Ending context.catalog} (counted : state.Counted ending.base)
    (valid : context.catalog.Valid) (plain : context.tentative = false) {map : Correspondence}
    (found : state.matcher.get? id = some map) (named : map.id = id)
    (open_ : map.satisfied = false) (within : map.Within state.relation)
    (heads : (state.append context id).2.Heads ending) :
    (state.append context id).2.Counted ending.base ∧
      state.relation.Gains (state.append context id).2.relation ∧
      (ending.again → map.Retraces (state.append context id).2.relation context.catalog
        (context.catalog.conclusions map.law)) := by
  obtain ⟨marked, same, unmade⟩ := @markSatisfied_open context state id map found named open_
  have countedToo : (state.markSatisfied context map).Counted ending.base := by
    refine ⟨same.symm ▸ counted.firm, ?_⟩
    rw [same, unmade]
    exact counted.count
  have withinToo : ({ map with satisfied := true, tentative := context.tentative } :
      Correspondence).Within (state.markSatisfied context map).relation := by
    rw [same]
    exact ⟨within.mapped, within.owned⟩
  rw [append_eq found] at heads ⊢
  obtain ⟨countedLast, gains, retraces⟩ := Counted.appendAll valid
    (context.catalog.conclusions map.law) countedToo marked named plain withinToo
    (fun _ member => member) ⟨heads.wider, heads.begun⟩
  rw [same] at gains
  exact ⟨⟨countedLast.firm, countedLast.count⟩, gains, fun again =>
    (retraces again).congr ⟨rfl, rfl, rfl, rfl⟩⟩

end PassState

end ConceptLaws
