import ConceptLaws.Proofs.Correspondence.Exhaustion
import ConceptLaws.Proofs.Correspondence.PlanRuns
import ConceptLaws.Proofs.Correspondence.Rederivation
import ConceptLaws.Proofs.Relation.Loading

/-! Passes come to an end within their budget.
The loops of a pass are written down once more as runs that go on for as long as there is something
to do and a check is left. Every pass has such a run, with the outcome that is computed: each attempt
spends a check before it may lead to others, and so does each round. A map is made only after a
check was spent, and an entity that was looked at is left out of later rounds. -/

namespace ConceptLaws

/-- Two correspondences are there, and are united. -/
structure Matcher.Joins (matcher : Matcher) (catalog : Catalog) (left right : MapId)
    (leftMap rightMap merged : Correspondence) (fills : Bool) : Prop where
  different : left ≠ right
  left : matcher.get? left = some leftMap
  right : matcher.get? right = some rightMap
  unites : matcher.Unites catalog leftMap rightMap merged fills

namespace PassState

/-! ## Runs -/

/-- A correspondence is tried with one candidate after the other, and each union that is not filled
with all its own candidates before that; the number tells how many unions are made. -/
inductive MergeRun (context : PassContext) : MapId → PassState → List MapId → Nat → PassState → Prop
  | nil {id : MapId} {state : PassState} : MergeRun context id state [] 0 state
  | broke {id other : MapId} {state : PassState} {rest : List MapId}
      (unpaid : state.matcher.spend? = none) : MergeRun context id state (other :: rest) 0 state
  | refused {id other : MapId} {state later : PassState} {spent : Matcher} {rest : List MapId}
      {made : Nat} (paid : state.matcher.spend? = some spent)
      (apart : ∀ leftMap rightMap merged fills,
        ¬spent.Joins context.catalog id other leftMap rightMap merged fills)
      (onward : MergeRun context id { state with matcher := spent } rest made later) :
      MergeRun context id state (other :: rest) made later
  | filled {id other : MapId} {state later : PassState} {spent : Matcher} {rest : List MapId}
      {made : Nat} {leftMap rightMap merged : Correspondence}
      (paid : state.matcher.spend? = some spent)
      (joins : spent.Joins context.catalog id other leftMap rightMap merged true)
      (onward : MergeRun context id (state.settleTaken context
        (spent.allocateUnion leftMap rightMap merged).2 spent.nextMap true) rest made later) :
      MergeRun context id state (other :: rest) (made + 1) later
  | partly {id other : MapId} {state next middle later : PassState} {spent : Matcher}
      {rest : List MapId} {inner made : Nat} {leftMap rightMap merged map : Correspondence}
      (paid : state.matcher.spend? = some spent)
      (joins : spent.Joins context.catalog id other leftMap rightMap merged false)
      (united : next = state.settleTaken context
        (spent.allocateUnion leftMap rightMap merged).2 spent.nextMap false)
      (found : next.matcher.get? spent.nextMap = some map)
      (further : MergeRun context spent.nextMap next (next.matcher.candidates map) inner middle)
      (onward : MergeRun context id middle rest made later) :
      MergeRun context id state (other :: rest) (inner + made + 1) later

/-- An entity is tried at one place after the other. -/
inductive PlaceRun (context : PassContext) (entity : EntityId) :
    PassState → List (LawId × LawNodeId) → Nat → PassState → Prop
  | nil {state : PassState} : PlaceRun context entity state [] 0 state
  | broke {state : PassState} {place : LawId × LawNodeId} {rest : List (LawId × LawNodeId)}
      (unpaid : state.matcher.spend? = none) : PlaceRun context entity state (place :: rest) 0 state
  | refused {state later : PassState} {spent : Matcher} {place : LawId × LawNodeId}
      {rest : List (LawId × LawNodeId)} {made : Nat} (paid : state.matcher.spend? = some spent)
      (idle : spent.isSeeded ⟨entity, place.2⟩ = true ∨ (Correspondence.empty place.1).plan?
        state.relation context.catalog ⟨entity, place.2⟩ = none)
      (onward : PlaceRun context entity { state with matcher := spent } rest made later) :
      PlaceRun context entity state (place :: rest) made later
  | filled {state later : PassState} {spent : Matcher} {place : LawId × LawNodeId}
      {rest : List (LawId × LawNodeId)} {plan : PairPlan} {made : Nat}
      (paid : state.matcher.spend? = some spent)
      (unseeded : spent.isSeeded ⟨entity, place.2⟩ = false)
      (planned : (Correspondence.empty place.1).plan? state.relation context.catalog
        ⟨entity, place.2⟩ = some plan)
      (fills : (Correspondence.ofPlan place.1 place.2 plan).Fills context.catalog)
      (onward : PlaceRun context entity (state.settleTaken context
        (spent.allocate (.ofPlan place.1 place.2 plan)).2 spent.nextMap true) rest made later) :
      PlaceRun context entity state (place :: rest) (made + 1) later
  | partly {state next middle later : PassState} {spent : Matcher} {place : LawId × LawNodeId}
      {rest : List (LawId × LawNodeId)} {plan : PairPlan} {inner made : Nat} {map : Correspondence}
      (paid : state.matcher.spend? = some spent)
      (unseeded : spent.isSeeded ⟨entity, place.2⟩ = false)
      (planned : (Correspondence.empty place.1).plan? state.relation context.catalog
        ⟨entity, place.2⟩ = some plan)
      (fails : ¬(Correspondence.ofPlan place.1 place.2 plan).Fills context.catalog)
      (sown : next = state.settleTaken context
        (spent.allocate (.ofPlan place.1 place.2 plan)).2 spent.nextMap false)
      (found : next.matcher.get? spent.nextMap = some map)
      (further : MergeRun context spent.nextMap next (next.matcher.candidates map) inner middle)
      (onward : PlaceRun context entity middle rest made later) :
      PlaceRun context entity state (place :: rest) (inner + made + 1) later

/-- Entities are looked at one after the other. -/
inductive VisitRun (context : PassContext) (tag : String) :
    PassState → List EntityId → Nat → PassState → Prop
  | nil {state : PassState} : VisitRun context tag state [] 0 state
  | next {state middle later : PassState} {entity : EntityId} {rest : List EntityId}
      {here made : Nat}
      (sows : PlaceRun context entity (state.noted tag entity) (seedPlaces context.catalog) here middle)
      (onward : VisitRun context tag middle rest made later) :
      VisitRun context tag state (entity :: rest) (here + made) later

/-- Rounds until nothing is pending or no check is left, with the entities that are looked at and
the number of correspondences that are made. -/
inductive RoundRun (context : PassContext) (tag : String) (dirty : Std.ExtTreeSet EntityId) :
    Std.ExtTreeSet EntityId → PassState → List EntityId → Nat → PassState → Prop
  | done {seen : Std.ExtTreeSet EntityId} {state : PassState}
      (finished : state.pending tag dirty seen = [] ∨ ¬state.Spare) :
      RoundRun context tag dirty seen state [] 0 state
  | next {seen : Std.ExtTreeSet EntityId} {state middle later : PassState}
      {pending others : List EntityId} {here made : Nat}
      (listed : state.pending tag dirty seen = pending) (going : pending ≠ []) (spare : state.Spare)
      (visits : VisitRun context tag state pending here middle)
      (onward : RoundRun context tag dirty (seen.insertMany pending) middle others made later) :
      RoundRun context tag dirty seen state (pending ++ others) (here + made) later

variable {context : PassContext} {state later : PassState}

/-! ## What runs spend -/

/-- Checks were spent, at least one for each correspondence that was made, and so many entities were
looked at. -/
structure Spends (state later : PassState) (looks made : Nat) : Prop where
  wider : state.relation.Extends later.relation
  looked : later.outcome.stats.nodesChecked = state.outcome.stats.nodesChecked + looks
  limit : later.matcher.maxChecks = state.matcher.maxChecks
  checks : state.matcher.checks + made ≤ later.matcher.checks
  within : state.matcher.checks ≤ state.matcher.maxChecks →
    later.matcher.checks ≤ state.matcher.maxChecks
  next : later.matcher.nextMap = Identifier.next^[made] state.matcher.nextMap

theorem spends_refl (state : PassState) : Spends state state 0 0 :=
  ⟨state.relation.extends_refl, rfl, rfl, Nat.le_refl _, fun within => within, rfl⟩

theorem Spends.trans {first second third : PassState} {looks others made more : Nat}
    (earlier : Spends first second looks made) (after : Spends second third others more) :
    Spends first third (looks + others) (made + more) where
  wider := earlier.wider.trans after.wider
  looked := by rw [after.looked, earlier.looked, Nat.add_assoc]
  limit := after.limit.trans earlier.limit
  checks := by
    have before := earlier.checks
    have behind := after.checks
    omega
  within := fun within => earlier.limit ▸ after.within (earlier.limit ▸ earlier.within within)
  next := by rw [after.next, earlier.next, Nat.add_comm, Function.iterate_add_apply]

/-- What comes after a check. -/
theorem Spends.after {looks made : Nat} {spent : Matcher}
    (paid : state.matcher.spend? = some spent)
    (onward : Spends { state with matcher := spent } later looks made) :
    Spends state later looks made := by
  obtain ⟨spare, rfl⟩ := Matcher.spend?_eq_some paid
  have checks := onward.checks
  dsimp only at checks
  exact ⟨onward.wider, onward.looked, onward.limit, by omega, fun _ => onward.within spare,
    onward.next⟩

theorem spends_noted (state : PassState) (tag : String) (entity : EntityId) :
    Spends state (state.noted tag entity) 1 0 :=
  ⟨state.relation.extends_refl, rfl, rfl, Nat.le_refl _, fun within => within, rfl⟩

theorem looked_appendBranch (context : PassContext) (state : PassState) (id : MapId)
    (node : LawNodeId) : (state.appendBranch context id node).2.outcome.stats.nodesChecked =
      state.outcome.stats.nodesChecked := by
  unfold appendBranch
  split
  · rfl
  split
  · rfl
  unfold commit
  split
  · rfl
  split
  · rfl
  · rfl

theorem looked_append (context : PassContext) (state : PassState) (id : MapId) :
    (state.append context id).2.outcome.stats.nodesChecked =
      state.outcome.stats.nodesChecked := by
  cases found : state.matcher.get? id with
  | none =>
    unfold append
    rw [found]
  | some map =>
    rw [append_eq found, ← state.nodesChecked_markSatisfied context map]
    dsimp only
    generalize context.catalog.conclusions map.law = nodes
    generalize state.markSatisfied context map = marked
    induction nodes generalizing marked with
    | nil => rfl
    | cons first rest ih => exact (ih _).trans (looked_appendBranch context marked id first)

/-- What a turn makes is paid for. -/
theorem spends_settleTaken {taken : Matcher} {id : MapId} {birth : Correspondence} {fills : Bool}
    (makes : state.Makes (state.settleTaken context taken id fills) birth fills)
    (spare : state.Spare) : Spends state (state.settleTaken context taken id fills) 0 1 := by
  have checks := makes.checks
  have settled : state.relation.Extends (state.settleTaken context taken id fills).relation ∧
      (state.settleTaken context taken id fills).outcome.stats.nodesChecked =
        state.outcome.stats.nodesChecked := by
    unfold settleTaken
    split
    · exact ⟨(advances_append context { state with matcher := taken } id).1,
        looked_append context { state with matcher := taken } id⟩
    · exact ⟨state.relation.extends_refl, rfl⟩
  exact ⟨settled.1, settled.2, makes.limit, checks.ge, fun _ => checks.le.trans spare, makes.next⟩

theorem spends_unite (context : PassContext) {spent : Matcher}
    (paid : state.matcher.spend? = some spent) {left right merged : Correspondence} {exact : Bool}
    (unites : spent.Unites context.catalog left right merged exact) :
    Spends state (state.settleTaken context (spent.allocateUnion left right merged).2
      spent.nextMap exact) 0 1 :=
  spends_settleTaken (makes_unite paid unites) (Matcher.spend?_eq_some paid).1

theorem spends_sow (context : PassContext) {spent : Matcher}
    (paid : state.matcher.spend? = some spent) (law : LawId) (node : LawNodeId) (plan : PairPlan)
    (fills : Bool) :
    Spends state (state.settleTaken context (spent.allocate (.ofPlan law node plan)).2
      spent.nextMap fills) 0 1 :=
  spends_settleTaken (makes_sow paid law node plan fills) (Matcher.spend?_eq_some paid).1

/-! ## What whole runs spend -/

theorem MergeRun.spends {id : MapId} {others : List MapId} {made : Nat}
    (run : MergeRun context id state others made later) : Spends state later 0 made := by
  induction run with
  | nil => exact spends_refl _
  | broke => exact spends_refl _
  | refused paid _ _ ih => exact ih.after paid
  | filled paid joins _ ih =>
    exact Nat.add_comm _ 1 ▸ (spends_unite context paid joins.unites).trans ih
  | partly paid joins united found _ _ inner onward =>
    subst united
    have here := spends_unite context paid joins.unites
    exact Nat.add_comm _ 1 ▸ here.trans (inner.trans onward)

theorem PlaceRun.spends {entity : EntityId} {places : List (LawId × LawNodeId)} {made : Nat}
    (run : PlaceRun context entity state places made later) : Spends state later 0 made := by
  induction run with
  | nil => exact spends_refl _
  | broke => exact spends_refl _
  | refused paid _ _ ih => exact ih.after paid
  | @filled _ _ _ place _ plan _ paid _ _ _ _ ih =>
    exact Nat.add_comm _ 1 ▸ (spends_sow context paid place.1 place.2 plan true).trans ih
  | @partly _ _ _ _ _ place _ plan _ _ _ paid _ _ _ sown _ further _ onward =>
    subst sown
    have here := spends_sow context paid place.1 place.2 plan false
    exact Nat.add_comm _ 1 ▸ here.trans (further.spends.trans onward)

theorem VisitRun.spends {tag : String} {entities : List EntityId} {made : Nat}
    (run : VisitRun context tag state entities made later) :
    Spends state later entities.length made := by
  induction run with
  | nil => exact spends_refl _
  | next sows _ ih =>
    have all := (spends_noted _ tag _).trans (sows.spends.trans ih)
    simpa [Nat.add_comm] using all

theorem RoundRun.spends {tag : String} {dirty seen : Std.ExtTreeSet EntityId}
    {visited : List EntityId} {made : Nat}
    (run : RoundRun context tag dirty seen state visited made later) :
    Spends state later visited.length made := by
  induction run with
  | done => exact spends_refl _
  | next _ _ _ visits _ ih => exact List.length_append ▸ visits.spends.trans ih

/-! ## Every pass has a run -/

/-- What is left of the budget after a check. -/
theorem budget_spent {spent : Matcher} {depth : Nat} (paid : state.matcher.spend? = some spent)
    (few : state.matcher.budget ≤ depth + 1) : spent.budget ≤ depth := by
  obtain ⟨spare, rfl⟩ := Matcher.spend?_eq_some paid
  unfold Matcher.budget at *
  dsimp only
  omega

theorem nextMap_spent {spent : Matcher} (paid : state.matcher.spend? = some spent) :
    spent.nextMap = state.matcher.nextMap := by
  obtain ⟨-, rfl⟩ := Matcher.spend?_eq_some paid
  rfl

theorem Spends.budget_le {looks made depth : Nat} (spends : Spends state later looks made)
    (few : state.matcher.budget ≤ depth + made) : later.matcher.budget ≤ depth := by
  have checks := spends.checks
  have limit := spends.limit
  unfold Matcher.budget at *
  omega

theorem tryMerge_refused {spent : Matcher} (paid : state.matcher.spend? = some spent)
    {left right : MapId} (further : PassState → MapId → PassState)
    (apart : ∀ leftMap rightMap merged fills,
      ¬spent.Joins context.catalog left right leftMap rightMap merged fills) :
    tryMerge context further left state right = { state with matcher := spent } := by
  unfold tryMerge mergeWith
  rw [paid]
  dsimp only
  split
  · rename_i leftMap rightMap foundLeft foundRight
    split
    · rfl
    · rename_i different
      split
      · rfl
      · rename_i merged fills united
        exact absurd ⟨different, foundLeft, foundRight, Matcher.union?_eq_some.1 united⟩
          (apart leftMap rightMap merged fills)
  · rfl

/-- One candidate after the other, if what comes of an attempt has runs. -/
theorem mergeRun_foldl {depth : Nat} {further : PassState → MapId → PassState}
    (runs : ∀ (state : PassState) (id : MapId) (map : Correspondence),
      state.matcher.budget ≤ depth → state.matcher.get? id = some map →
        ∃ made, MergeRun context id state (state.matcher.candidates map) made (further state id))
    (id : MapId) (others : List MapId) : ∀ {state : PassState}, state.matcher.budget ≤ depth + 1 →
      ∃ made, MergeRun context id state others made
        (others.foldl (tryMerge context further id) state) := by
  induction others with
  | nil => exact fun _ => ⟨0, .nil⟩
  | cons other rest ih =>
    intro state few
    cases paid : state.matcher.spend? with
    | none =>
      have idle (right : MapId) : tryMerge context further id state right = state := by
        unfold tryMerge
        rw [paid]
      rw [List.foldl_fixed' idle]
      exact ⟨0, .broke paid⟩
    | some spent =>
      rw [List.foldl_cons]
      by_cases joined : ∃ leftMap rightMap merged fills,
          spent.Joins context.catalog id other leftMap rightMap merged fills
      · obtain ⟨leftMap, rightMap, merged, fills, joins⟩ := joined
        have taken := spends_unite context paid joins.unites
        have here : (state.settleTaken context (spent.allocateUnion leftMap rightMap merged).2
            spent.nextMap fills).matcher.budget ≤ depth := taken.budget_le few
        rw [tryMerge_eq paid joins.left joins.right joins.different joins.unites]
        cases fills with
        | true =>
          obtain ⟨made, onward⟩ := ih (Nat.le_succ_of_le here)
          exact ⟨made + 1, .filled paid joins onward⟩
        | false =>
          obtain ⟨map, found, -⟩ := (makes_unite paid joins.unites).found
          rw [← nextMap_spent paid] at found
          obtain ⟨inner, run⟩ := runs _ spent.nextMap map here found
          obtain ⟨made, onward⟩ := ih (Nat.le_succ_of_le
            (run.spends.budget_le (Nat.le_add_right_of_le here)))
          exact ⟨inner + made + 1, .partly paid joins rfl found run onward⟩
      · have apart : ∀ leftMap rightMap merged fills,
            ¬spent.Joins context.catalog id other leftMap rightMap merged fills :=
          fun leftMap rightMap merged fills joins =>
            joined ⟨leftMap, rightMap, merged, fills, joins⟩
        rw [tryMerge_refused paid further apart]
        have fewer := budget_spent paid few
        obtain ⟨made, onward⟩ := @ih { state with matcher := spent } (Nat.le_succ_of_le fewer)
        exact ⟨made, .refused paid apart onward⟩

/-- By induction on the depth: each attempt spends a check, so the budget is enough. -/
theorem mergeRun_mergeAll (depth : Nat) : ∀ (state : PassState) (id : MapId) (map : Correspondence),
    state.matcher.budget ≤ depth → state.matcher.get? id = some map →
      ∃ made, MergeRun context id state (state.matcher.candidates map) made
        (mergeAll context depth state id) := by
  induction depth with
  | zero =>
    intro state id map few found
    have unpaid : state.matcher.spend? = none := by
      unfold Matcher.budget at few
      unfold Matcher.spend?
      exact if_pos (by omega)
    unfold mergeAll
    cases state.matcher.candidates map with
    | nil => exact ⟨0, .nil⟩
    | cons other rest => exact ⟨0, .broke unpaid⟩
  | succ depth ih =>
    intro state id map few found
    unfold mergeAll
    rw [found]
    exact mergeRun_foldl ih id _ few

/-- A place is tried by a check: a seed that is sown is concluded or merged, and then the others
follow. -/
theorem placeRun_checkSeed {entity : EntityId} {spent : Matcher} {created : List MapId}
    {place : LawId × LawNodeId} {rest : List (LawId × LawNodeId)} {made : Nat}
    (paid : state.matcher.spend? = some spent)
    (onward : PlaceRun context entity (checkSeed context entity (created, state) place).2 rest made
      later) : ∃ made, PlaceRun context entity state (place :: rest) made later := by
  unfold checkSeed at onward
  dsimp only at onward
  rw [paid] at onward
  dsimp only at onward
  cases seeded : spent.seed state.relation context.catalog place.1 ⟨entity, place.2⟩ with
  | mk id matcher =>
    rw [seeded] at onward
    cases id with
    | none =>
      obtain ⟨idle, rfl⟩ := Matcher.seed_eq_none seeded
      exact ⟨made, .refused paid idle onward⟩
    | some id =>
      have unseeded := Matcher.isSeeded_of_seed_eq_some seeded
      obtain ⟨plan, planned, rfl, rfl⟩ := Matcher.seed_eq_some seeded
      dsimp only at onward
      rw [develop_eq] at onward
      split at onward
      · rename_i fills
        rw [decide_eq_true fills] at onward
        exact ⟨made + 1, .filled paid unseeded planned fills onward⟩
      · rename_i fails
        rw [decide_eq_false fails] at onward
        obtain ⟨map, found, -⟩ := (makes_sow paid place.1 place.2 plan false).found
        rw [← nextMap_spent paid] at found
        obtain ⟨inner, run⟩ := mergeRun_mergeAll _ _ _ map (Nat.le_refl _) found
        exact ⟨inner + made + 1, .partly paid unseeded planned fails rfl found run onward⟩

theorem placeRun_foldl (entity : EntityId) (places : List (LawId × LawNodeId)) :
    ∀ (created : List MapId) (state : PassState), ∃ made, PlaceRun context entity state places made
      (places.foldl (checkSeed context entity) (created, state)).2 := by
  induction places with
  | nil => exact fun _ _ => ⟨0, .nil⟩
  | cons place rest ih =>
    intro created state
    cases paid : state.matcher.spend? with
    | none =>
      have idle (other : LawId × LawNodeId) :
          checkSeed context entity (created, state) other = (created, state) := by
        unfold checkSeed
        dsimp only
        rw [paid]
      rw [List.foldl_fixed' idle]
      exact ⟨0, .broke paid⟩
    | some spent =>
      obtain ⟨made, onward⟩ := ih _ (checkSeed context entity (created, state) place).2
      exact placeRun_checkSeed paid onward

theorem visitRun_foldl (tag : String) (entities : List EntityId) : ∀ state : PassState,
    ∃ made, VisitRun context tag state entities made
      (entities.foldl (visit context tag) state) := by
  induction entities with
  | nil => exact fun _ => ⟨0, .nil⟩
  | cons entity rest ih =>
    intro state
    obtain ⟨here, places⟩ := @placeRun_foldl context entity (seedPlaces context.catalog) []
      (state.noted tag entity)
    obtain ⟨made, onward⟩ := ih (state.visit context tag entity)
    exact ⟨here + made, .next places onward⟩

/-! ## Rounds -/

/-- Where there is nowhere to sow, an entity is only noted. -/
theorem visit_of_nowhere (nowhere : seedPlaces context.catalog = []) (tag : String)
    (state : PassState) (entity : EntityId) : state.visit context tag entity =
      state.noted tag entity := by
  change ((seedPlaces context.catalog).foldl (checkSeed context entity) _).2 = _
  rw [nowhere]
  rfl

theorem foldl_visit_of_nowhere (nowhere : seedPlaces context.catalog = []) (tag : String)
    (entities : List EntityId) : ∀ state : PassState,
      (entities.foldl (visit context tag) state).relation = state.relation ∧
        ∀ id, id ∉ entities →
          (entities.foldl (visit context tag) state).matcher.checked[id]? =
            state.matcher.checked[id]? := by
  induction entities with
  | nil => exact fun _ => ⟨rfl, fun _ _ => rfl⟩
  | cons entity rest ih =>
    intro state
    rw [List.foldl_cons, visit_of_nowhere nowhere]
    obtain ⟨relation, checked⟩ := ih (state.noted tag entity)
    refine ⟨relation, fun id absent => ?_⟩
    obtain ⟨different, others⟩ := not_or.1 (mt List.mem_cons.2 absent)
    rw [checked id others]
    have apart : ¬compare entity id = .eq := fun same =>
      different (Std.compare_eq_iff_eq.1 same).symm
    exact (Std.ExtTreeMap.getElem?_insert).trans (if_neg apart)

/-- Where there is nowhere to sow, nothing is pending after a round. -/
theorem pending_of_nowhere (nowhere : seedPlaces context.catalog = []) (tag : String)
    (dirty seen : Std.ExtTreeSet EntityId) (state : PassState) :
    ((state.pending tag dirty seen).foldl (visit context tag) state).pending tag dirty
      (seen.insertMany (state.pending tag dirty seen)) = [] := by
  obtain ⟨relation, checked⟩ := foldl_visit_of_nowhere nowhere tag
    (state.pending tag dirty seen) state
  rw [List.eq_nil_iff_forall_not_mem]
  intro id again
  obtain ⟨listed, holds⟩ := List.mem_filter.1 again
  simp only [Bool.and_eq_true, Bool.not_eq_true', ← Bool.not_eq_true,
    ← Std.ExtTreeSet.mem_iff_contains, Std.ExtTreeSet.mem_insertMany_list, not_or,
    List.contains_iff_mem] at holds
  obtain ⟨⟨⟨unseen, absent⟩, accepted⟩, due⟩ := holds
  refine absent (List.mem_filter.2 ⟨relation ▸ listed, ?_⟩)
  rw [checked id absent] at due
  rw [relation] at accepted
  have out : seen.contains id = false :=
    Bool.eq_false_iff.2 (mt Std.ExtTreeSet.mem_iff_contains.2 unseen)
  simp [accepted, due, out]

/-- One round, if there is something to do, and whatever comes after it. -/
theorem roundRun_rounds_succ {tag : String} {dirty seen : Std.ExtTreeSet EntityId} {limit : Nat}
    (onward : state.pending tag dirty seen ≠ [] → state.Spare → ∃ others made,
      RoundRun context tag dirty (seen.insertMany (state.pending tag dirty seen))
        ((state.pending tag dirty seen).foldl (visit context tag) state) others made
        (rounds context tag dirty limit (seen.insertMany (state.pending tag dirty seen))
          ((state.pending tag dirty seen).foldl (visit context tag) state))) :
    ∃ visited made, RoundRun context tag dirty seen state visited made
      (rounds context tag dirty (limit + 1) seen state) := by
  unfold rounds
  dsimp only
  split
  · rename_i finished
    refine ⟨[], 0, .done ?_⟩
    simpa [Matcher.budget, Spare, Nat.sub_eq_zero_iff_le] using finished
  · rename_i going
    have busy : state.pending tag dirty seen ≠ [] ∧ state.Spare := by
      simpa [Matcher.budget, Spare, Nat.sub_eq_zero_iff_le, not_or] using going
    obtain ⟨here, visits⟩ := @visitRun_foldl context tag (state.pending tag dirty seen) state
    obtain ⟨others, made, rest⟩ := onward busy.1 busy.2
    exact ⟨_, here + made, .next rfl busy.1 busy.2 visits rest⟩

/-- A round spends a check, and the limit is above what is left of the budget. -/
theorem roundRun_rounds_of_places (tag : String) (dirty : Std.ExtTreeSet EntityId)
    (somewhere : seedPlaces context.catalog ≠ []) (limit : Nat) :
    ∀ (seen : Std.ExtTreeSet EntityId) (state : PassState), state.matcher.budget < limit →
      ∃ visited made, RoundRun context tag dirty seen state visited made
        (rounds context tag dirty limit seen state) := by
  induction limit with
  | zero => exact fun _ _ few => absurd few (Nat.not_lt_zero _)
  | succ limit ih =>
    intro seen state few
    refine roundRun_rounds_succ fun busy spare => ih _ _ ?_
    obtain ⟨here, visits⟩ := @visitRun_foldl context tag (state.pending tag dirty seen) state
    have limits := visits.spends.limit
    have spent := checks_lt_foldl_visit tag somewhere busy spare
    unfold Spare at spare
    unfold Matcher.budget at few ⊢
    omega

/-- Where there is nowhere to sow, one round is enough. -/
theorem roundRun_rounds_of_nowhere (tag : String) (dirty : Std.ExtTreeSet EntityId)
    (nowhere : seedPlaces context.catalog = []) (limit : Nat) (seen : Std.ExtTreeSet EntityId)
    (state : PassState) : ∃ visited made, RoundRun context tag dirty seen state visited made
      (rounds context tag dirty (limit + 2) seen state) :=
  roundRun_rounds_succ fun _ _ => roundRun_rounds_succ fun busy _ =>
    absurd (pending_of_nowhere nowhere tag dirty seen state) busy

/-- Two rounds more than there are checks are enough. -/
theorem roundRun_rounds (tag : String) (dirty seen : Std.ExtTreeSet EntityId) (state : PassState) :
    ∃ visited made, RoundRun context tag dirty seen state visited made
      (rounds context tag dirty (state.matcher.maxChecks + 2) seen state) := by
  by_cases nowhere : seedPlaces context.catalog = []
  · exact roundRun_rounds_of_nowhere tag dirty nowhere _ seen state
  · refine roundRun_rounds_of_places tag dirty nowhere _ seen state ?_
    unfold Matcher.budget
    omega

/-- Whoever was looked at is left out of later rounds, and the topological order lists nobody twice.
-/
theorem RoundRun.nodup {tag : String} {dirty seen : Std.ExtTreeSet EntityId}
    {visited : List EntityId} {made : Nat}
    (run : RoundRun context tag dirty seen state visited made later)
    (named : state.relation.Named) : visited.Nodup ∧ ∀ id ∈ visited, id ∉ seen := by
  induction run with
  | done => exact ⟨List.nodup_nil, fun id member => absurd member List.not_mem_nil⟩
  | @next seen state middle later pending others here made listed _ _ visits _ ih =>
    obtain ⟨once, apart⟩ := ih (visits.spends.wider.named named)
    subst listed
    have order : state.relation.topological.Nodup := by
      rw [named.topological_eq]
      exact (state.relation.listing_start.nodup_listReady state.relation.childTable_childTable
        state.relation.size).1
    have fresh : ∀ id ∈ state.pending tag dirty seen, id ∉ seen := by
      intro id member
      have holds := (List.mem_filter.1 member).2
      simp only [Bool.and_eq_true, Bool.not_eq_true', ← Bool.not_eq_true,
        ← Std.ExtTreeSet.mem_iff_contains] at holds
      exact holds.1.1
    have behind : ∀ id ∈ others, id ∉ state.pending tag dirty seen ∧ id ∉ seen := by
      intro id member
      have absent := apart id member
      simp only [Std.ExtTreeSet.mem_insertMany_list, not_or, List.contains_iff_mem] at absent
      exact ⟨absent.2, absent.1⟩
    refine ⟨List.nodup_append.2 ⟨order.filter _, once, fun id inside other outside same => ?_⟩,
      fun id member => ?_⟩
    · exact (behind other outside).1 (same ▸ inside)
    · rcases List.mem_append.1 member with inside | outside
      · exact fresh id inside
      · exact (behind id outside).2

end PassState

namespace Matcher

theorem toNat_iterate_next_le (id : MapId) (count : Nat) :
    (Identifier.next^[count] id).toNat ≤ id.toNat + count := by
  induction count generalizing id with
  | zero => exact Nat.le_refl _
  | succ count ih =>
    have step : id.next.toNat ≤ id.toNat + 1 := by
      unfold Identifier.next Identifier.toNat
      rw [UInt64.toNat_add]
      exact Nat.mod_le _ _
    exact (ih id.next).trans (by omega)

/-- Every pass over every relation comes to an end. No entity is looked at twice, the checks stay
within the budget, and no more correspondences are made than checks were spent. Plans, whose
recursion follows links, come to an end too, as the links of a law run in no cycle. Of the relation
only that is asked which all operations keep, that entities are kept under their identifiers. -/
theorem evaluate_ends {catalog : Catalog} (valid : catalog.Valid) {relation : Relation}
    (named : relation.Named) (matcher : Matcher) (options : PassOptions)
    (dirty : Std.ExtTreeSet EntityId) :
    (∀ (map : Correspondence) (relation : Relation) (pair : Pair),
      map.PairRun relation catalog [] pair (map.plan? relation catalog pair)) ∧
    (∀ (map : Correspondence) (relation : Relation) (id : LawNodeId),
      map.NodeRun relation catalog .empty id (map.planBranch? relation catalog id)) ∧
    ∃ visited made,
      PassState.RoundRun ⟨catalog, options.tentative⟩ options.tag dirty ∅
        ⟨matcher.prepare options, relation, .empty⟩ visited made
        (matcher.passed relation catalog options dirty) ∧
      visited.Nodup ∧
      (matcher.evaluate relation catalog options dirty).outcome.stats.nodesChecked =
        visited.length ∧
      (matcher.evaluate relation catalog options dirty).matcher.checks ≤ matcher.maxChecks ∧
      made ≤ (matcher.evaluate relation catalog options dirty).matcher.checks ∧
      (matcher.evaluate relation catalog options dirty).matcher.nextMap =
        Identifier.next^[made] (matcher.prepare options).nextMap ∧
      (matcher.evaluate relation catalog options dirty).outcome.stats.mapsCreated ≤ made := by
  refine ⟨Correspondence.pairRun_plan? valid, Correspondence.nodeRun_planBranch? valid, ?_⟩
  obtain ⟨visited, made, run⟩ := @PassState.roundRun_rounds ⟨catalog, options.tentative⟩ options.tag
    dirty ∅ ⟨matcher.prepare options, relation, .empty⟩
  have spends := run.spends
  have limit : (matcher.prepare options).maxChecks = matcher.maxChecks := by
    unfold prepare
    split
    · rfl
    · rfl
  have looked := spends.looked
  have checks := spends.checks
  refine ⟨visited, made, run, (run.nodup named).1, ?_, ?_, ?_, spends.next, ?_⟩
  · exact looked.trans (Nat.zero_add _)
  · exact limit ▸ spends.within (Nat.zero_le _)
  · exact (Nat.zero_add made).symm.le.trans checks
  · have far := toNat_iterate_next_le (matcher.prepare options).nextMap made
    rw [← spends.next] at far
    have before : (matcher.prepare options).nextMap =
        (if options.reset then matcher.reset else matcher).nextMap := rfl
    change (matcher.passed relation catalog options dirty).matcher.nextMap.toNat -
      (if options.reset then matcher.reset else matcher).nextMap.toNat ≤ made
    rw [← before]
    exact Nat.sub_le_of_le_add (Nat.add_comm _ made ▸ far)

/-- From each p follows another p below it. -/
def endless : Catalog := .unchecked ⟨letters, [
  letterLaw 100 [⟨1⟩] [letterNode 1 1 none none, letterNode 2 1 (some ⟨1⟩) none]]⟩

theorem valid_endless : endless.Valid := Catalog.valid_unchecked rfl rfl rfl

/-- The five checks go to a p and two q, and then to two p that follow one from the other. -/
theorem evaluate_ends_endless :
    ((empty 5).evaluate threeLetters endless .standard ∅).outcome.appended = [⟨4⟩, ⟨5⟩, ⟨6⟩] ∧
      ∃ visited made, PassState.RoundRun ⟨endless, false⟩ PassOptions.standard.tag ∅ ∅
        ⟨(empty 5).prepare .standard, threeLetters, .empty⟩ visited made
        ((empty 5).passed threeLetters endless .standard ∅) ∧
      visited.Nodup ∧ visited.length = 5 ∧ 3 ≤ made ∧ made ≤ 5 := by
  obtain ⟨-, -, visited, made, run, once, looked, -, fewer, -, created⟩ :=
    evaluate_ends valid_endless firm_threeLetters.forest.named (empty 5) .standard ∅
  have five : ((empty 5).evaluate threeLetters endless .standard ∅).outcome.stats.nodesChecked =
      5 := by decide +kernel
  have checks : ((empty 5).evaluate threeLetters endless .standard ∅).matcher.checks = 5 := by
    decide +kernel
  have three : ((empty 5).evaluate threeLetters endless .standard ∅).outcome.stats.mapsCreated =
      3 := by decide +kernel
  exact ⟨by decide +kernel, visited, made, run, once, looked.symm.trans five, three ▸ created,
    checks ▸ fewer⟩

end Matcher

end ConceptLaws
