import ConceptLaws.Correspondence.Pass
import ConceptLaws.Proofs.Correspondence.Branches
import ConceptLaws.Proofs.Correspondence.Matcher
import ConceptLaws.Proofs.Correspondence.Planning

/-! Seeds, and the moves of a pass.
Matching starts from correspondences that were built from an entity at a single deep predicate. What
merging makes of them has several deep predicates, so a seed is never mistaken for a union. While a
pass looks at an entity it spends checks, each of which may bring one new correspondence, and it
appends the branches of conclusions. Whatever it does is a run of such moves. -/

namespace ConceptLaws

namespace Correspondence

/-- The correspondence was built from a single deep predicate, at an entity. -/
structure SeededAt (map : Correspondence) (pair : Pair) : Prop where
  single : map.deepPredicates.size = 1
  member : pair.node ∈ map.deepPredicates
  held : map.entityOf[pair.node]? = some pair.entity

theorem SeededAt.grow {map later : Correspondence} {pair : Pair} (seeded : map.SeededAt pair)
    (grows : map.Grows later) : later.SeededAt pair where
  single := grows.deepPredicates ▸ seeded.single
  member := grows.deepPredicates ▸ seeded.member
  held := grows.kept _ _ seeded.held

theorem eq_of_size_eq_one {nodes : Std.ExtTreeSet LawNodeId} (single : nodes.size = 1)
    {first second : LawNodeId} (left : first ∈ nodes) (right : second ∈ nodes) :
    first = second := by
  rw [← Std.ExtTreeSet.length_toList] at single
  obtain ⟨only, listed⟩ := List.length_eq_one_iff.1 single
  rw [← Std.ExtTreeSet.mem_toList, listed, List.mem_singleton] at left right
  exact left.trans right.symm

theorem SeededAt.node_eq {map : Correspondence} {pair : Pair} (seeded : map.SeededAt pair)
    {node : LawNodeId} (member : node ∈ map.deepPredicates) : node = pair.node :=
  eq_of_size_eq_one seeded.single member seeded.member

theorem SeededAt.deepPairs? {map : Correspondence} {pair : Pair} (seeded : map.SeededAt pair) :
    map.deepPairs? = some [pair] := by
  have single := seeded.single
  have member := seeded.member
  rw [← Std.ExtTreeSet.length_toList] at single
  obtain ⟨only, listed⟩ := List.length_eq_one_iff.1 single
  rw [← Std.ExtTreeSet.mem_toList, listed, List.mem_singleton] at member
  unfold Correspondence.deepPairs?
  rw [listed, ← member]
  simp [seeded.held]

/-- The correspondence that a plan leads to. -/
def ofPlan (law : LawId) (node : LawNodeId) (plan : PairPlan) : Correspondence :=
  let filled := plan.foldl record (empty law)
  { filled with deepPredicates := filled.deepPredicates.insert node }

theorem deepPredicates_ofPlan (law : LawId) (node : LawNodeId) (plan : PairPlan) :
    (ofPlan law node plan).deepPredicates = (∅ : Std.ExtTreeSet LawNodeId).insert node :=
  congrArg (Std.ExtTreeSet.insert · node) (stays_foldl_record plan (empty law)).deepPredicates

theorem law_ofPlan (law : LawId) (node : LawNodeId) (plan : PairPlan) :
    (ofPlan law node plan).law = law :=
  (stays_foldl_record plan (empty law)).law

theorem satisfied_ofPlan (law : LawId) (node : LawNodeId) (plan : PairPlan) :
    (ofPlan law node plan).satisfied = false :=
  (stays_foldl_record plan (empty law)).satisfied

theorem seededAt_ofPlan {law : LawId} {relation : Relation} {catalog : Catalog} {pair : Pair}
    {plan : PairPlan} (planned : (empty law).plan? relation catalog pair = some plan) :
    (ofPlan law pair.node plan).SeededAt pair := by
  obtain ⟨⟨rest, rfl⟩, -⟩ := exists_cons_of_plan planned
  refine ⟨?_, ?_, ?_⟩
  · rw [deepPredicates_ofPlan, Std.ExtTreeSet.size_insert]
    simp
  · rw [deepPredicates_ofPlan]
    exact Std.ExtTreeSet.mem_insert_self
  · have first : ((empty law).record pair).entityOf[pair.node]? = some pair.entity :=
      entityOf_record (by simp [empty]) (by simp [empty])
    exact (stays_foldl_record rest _).kept _ _ first

theorem sound_ofPlan {law : LawId} {relation : Relation} {catalog : Catalog} {pair : Pair}
    {plan : PairPlan} (planned : (empty law).plan? relation catalog pair = some plan) :
    (ofPlan law pair.node plan).Sound := by
  have seeded := seededAt_ofPlan planned
  refine ⟨(stays_foldl_record plan (empty law)).paired (paired_empty law), ⟨_, seeded.member⟩,
    fun single node member => ?_⟩
  obtain rfl := eq_of_size_eq_one single seeded.member member
  exact ⟨pair.entity, seeded.held⟩

/-- The mapped predicates are one of the predicate sets of the law. -/
def Fills (map : Correspondence) (catalog : Catalog) : Prop :=
  catalog.coverage map.law (map.predicateNodes catalog) = .exact

instance (map : Correspondence) (catalog : Catalog) : Decidable (map.Fills catalog) :=
  inferInstanceAs (Decidable (_ = Coverage.exact))

end Correspondence

namespace Matcher

/-- There is a correspondence that was built from a single deep predicate at the entity. -/
def Seeded (matcher : Matcher) (pair : Pair) : Prop :=
  ∃ id map, matcher.get? id = some map ∧ map.SeededAt pair

/-- Seeding takes in the correspondence of a plan. -/
theorem seed_eq (matcher : Matcher) (relation : Relation) (catalog : Catalog) (law : LawId)
    (pair : Pair) : matcher.seed relation catalog law pair =
      if matcher.isSeeded pair then (none, matcher)
      else match (Correspondence.empty law).plan? relation catalog pair with
        | none => (none, matcher)
        | some plan =>
          (some matcher.nextMap, (matcher.allocate (.ofPlan law pair.node plan)).2) := rfl

theorem seed_eq_none {matcher later : Matcher} {relation : Relation} {catalog : Catalog}
    {law : LawId} {pair : Pair}
    (refused : matcher.seed relation catalog law pair = (none, later)) :
    (matcher.isSeeded pair = true ∨
      (Correspondence.empty law).plan? relation catalog pair = none) ∧ later = matcher := by
  rw [seed_eq] at refused
  split at refused
  · rename_i seeded
    exact ⟨Or.inl seeded, (Prod.mk.inj refused).2.symm⟩
  · split at refused
    · rename_i unplanned
      exact ⟨Or.inr unplanned, (Prod.mk.inj refused).2.symm⟩
    · simp at refused

/-- Nothing is seeded twice. -/
theorem isSeeded_of_seed_eq_some {matcher later : Matcher} {relation : Relation}
    {catalog : Catalog} {law : LawId} {pair : Pair} {id : MapId}
    (seeded : matcher.seed relation catalog law pair = (some id, later)) :
    matcher.isSeeded pair = false := by
  rw [seed_eq] at seeded
  split at seeded
  · simp at seeded
  · rename_i fresh
    exact Bool.eq_false_iff.2 fresh

theorem seed_eq_some {matcher later : Matcher} {relation : Relation} {catalog : Catalog}
    {law : LawId} {pair : Pair} {id : MapId}
    (seeded : matcher.seed relation catalog law pair = (some id, later)) :
    ∃ plan, (Correspondence.empty law).plan? relation catalog pair = some plan ∧
      id = matcher.nextMap ∧ later = (matcher.allocate (.ofPlan law pair.node plan)).2 := by
  rw [seed_eq] at seeded
  split at seeded
  · simp at seeded
  · split at seeded
    · simp at seeded
    · rename_i plan planned
      obtain ⟨named, allocated⟩ := Prod.mk.inj seeded
      exact ⟨plan, planned, (Option.some.inj named).symm, allocated.symm⟩

end Matcher

end ConceptLaws

/-! ## Moves -/

namespace ConceptLaws

namespace PassState

/-- Marks a correspondence satisfied, if it is there. -/
def satisfyAt (context : PassContext) (state : PassState) (id : MapId) : PassState :=
  match state.matcher.get? id with
  | none => state
  | some map => state.markSatisfied context map

/-- Takes in the correspondence of a plan, and marks it satisfied if it fills a predicate set. -/
def sow (context : PassContext) (state : PassState) (spent : Matcher) (law : LawId)
    (node : LawNodeId) (plan : PairPlan) : PassState :=
  let sown := { state with matcher := (spent.allocate (.ofPlan law node plan)).2 }
  if (Correspondence.ofPlan law node plan).Fills context.catalog then
    sown.satisfyAt context spent.nextMap
  else sown

section Marking

variable (context : PassContext) (state : PassState) (map : Correspondence)

@[simp] theorem relation_markSatisfied :
    (state.markSatisfied context map).relation = state.relation := by
  unfold markSatisfied
  split
  · rfl
  · rfl

@[simp] theorem appended_markSatisfied :
    (state.markSatisfied context map).outcome.appended = state.outcome.appended := by
  unfold markSatisfied
  split
  · rfl
  · rfl

@[simp] theorem nodesChecked_markSatisfied :
    (state.markSatisfied context map).outcome.stats.nodesChecked =
      state.outcome.stats.nodesChecked := by
  unfold markSatisfied
  split
  · rfl
  · rfl

@[simp] theorem nextMap_markSatisfied :
    (state.markSatisfied context map).matcher.nextMap = state.matcher.nextMap := by
  unfold markSatisfied
  split
  · rfl
  · rfl

end Marking

/-- If there is a correspondence under the identifier, it is satisfied. -/
def Settles (state : PassState) (id : MapId) : Prop :=
  ∀ map, state.matcher.get? id = some map → map.id = id → map.satisfied = true

/-- A single move, with the pairs at which it may sow. -/
inductive Move (context : PassContext) (fresh : Pair → Prop) (state : PassState) :
    PassState → Prop
  | check {spent : Matcher} (paid : state.matcher.spend? = some spent) :
      Move context fresh state { state with matcher := spent }
  | seed {spent : Matcher} {law : LawId} {pair : Pair} {plan : PairPlan}
      (paid : state.matcher.spend? = some spent)
      (place : (law, pair.node) ∈ seedPlaces context.catalog) (allowed : fresh pair)
      (planned : (Correspondence.empty law).plan? state.relation context.catalog pair =
        some plan) :
      Move context fresh state (state.sow context spent law pair.node plan)
  | unite {spent : Matcher} {left right : MapId} {leftMap rightMap merged : Correspondence}
      {exact : Bool} (paid : state.matcher.spend? = some spent)
      (foundLeft : spent.get? left = some leftMap) (foundRight : spent.get? right = some rightMap)
      (united : spent.union? context.catalog leftMap rightMap = some (merged, exact)) :
      Move context fresh state
        (if exact then
          satisfyAt context
            { state with matcher := (spent.allocateUnion leftMap rightMap merged).2 }
            (spent.allocateUnion leftMap rightMap merged).1
        else { state with matcher := (spent.allocateUnion leftMap rightMap merged).2 })
  | branch (id : MapId) (node : LawNodeId) (settled : state.Settles id) :
      Move context fresh state (state.appendBranch context id node).2
  | conclude (id : MapId) (conclusions : List EntityId) :
      Move context fresh state { state with
        matcher := state.matcher.update id fun map => { map with conclusions := conclusions } }

/-- Moves one after the other. -/
inductive Run (context : PassContext) (fresh : Pair → Prop) : PassState → PassState → Prop
  | refl (state : PassState) : Run context fresh state state
  | step {state middle later : PassState} (move : Move context fresh state middle)
      (rest : Run context fresh middle later) : Run context fresh state later

/-- Nowhere. -/
def nowhere : Pair → Prop := fun _ => False

variable {context : PassContext} {fresh : Pair → Prop}

theorem Move.run {state later : PassState} (move : Move context fresh state later) :
    Run context fresh state later :=
  .step move (.refl later)

theorem Run.trans {first second third : PassState} (earlier : Run context fresh first second)
    (later : Run context fresh second third) : Run context fresh first third := by
  induction earlier with
  | refl => exact later
  | step move _ ih => exact .step move (ih later)

theorem Move.mono {wider : Pair → Prop} {state later : PassState}
    (move : Move context fresh state later) (allowed : ∀ pair, fresh pair → wider pair) :
    Move context wider state later := by
  cases move with
  | check paid => exact .check paid
  | seed paid place held planned => exact .seed paid place (allowed _ held) planned
  | unite paid foundLeft foundRight united => exact .unite paid foundLeft foundRight united
  | branch id node settled => exact .branch id node settled
  | conclude id conclusions => exact .conclude id conclusions

theorem Run.mono {wider : Pair → Prop} {state later : PassState}
    (run : Run context fresh state later) (allowed : ∀ pair, fresh pair → wider pair) :
    Run context wider state later := by
  induction run with
  | refl => exact .refl _
  | step move _ ih => exact .step (move.mono allowed) ih

theorem run_foldl {α : Type} {step : PassState → α → PassState}
    (runs : ∀ state item, Run context fresh state (step state item)) (items : List α)
    (state : PassState) : Run context fresh state (items.foldl step state) := by
  induction items generalizing state with
  | nil => exact .refl state
  | cons first rest ih => exact (runs state first).trans (ih _)

/-! ## Conclusions -/

theorem settles_satisfyAt (context : PassContext) (state : PassState) (id : MapId) :
    (state.satisfyAt context id).Settles id := by
  unfold satisfyAt
  cases found : state.matcher.get? id with
  | none =>
    intro map present
    simp [found] at present
  | some map =>
    intro after present named
    unfold markSatisfied at present
    dsimp only at present
    split at present
    · rename_i satisfied
      obtain rfl := Option.some.inj (found.symm.trans present)
      exact satisfied
    · rw [Matcher.get?_update, found] at present
      split at present
      · obtain rfl := Option.some.inj present
        rfl
      · rename_i different
        obtain rfl := Option.some.inj present
        exact (different named.symm).elim

theorem Settles.appendBranch {state : PassState} {id : MapId} (settled : state.Settles id)
    (context : PassContext) (node : LawNodeId) :
    (state.appendBranch context id node).2.Settles id := by
  obtain ⟨-, same | ⟨map, pairs, formulas, -, adopted⟩⟩ := state.appendBranch_cases context id node
  · unfold Settles
    rw [same]
    exact settled
  · intro after present named
    rw [adopted, Matcher.get?_update] at present
    split at present
    · obtain ⟨before, found, rfl⟩ := Option.map_eq_some_iff.1 present
      have stays := before.stays_adopt pairs formulas
      exact stays.satisfied.trans (settled before found (stays.id.symm.trans named))
    · exact settled after present named

theorem run_appendAll {id : MapId} (nodes : List LawNodeId) {state : PassState}
    (settled : state.Settles id) : Run context fresh state (appendAll context id nodes state).2 := by
  induction nodes generalizing state with
  | nil => exact .refl state
  | cons first rest ih =>
    exact (Move.run (.branch id first settled)).trans (ih (settled.appendBranch context first))

/-- Once a correspondence is marked satisfied, appending goes from branch to branch. -/
theorem run_append (state : PassState) (id : MapId) :
    Run context fresh (state.satisfyAt context id) (state.append context id).2 := by
  have settled := state.settles_satisfyAt context id
  unfold append satisfyAt at *
  cases found : state.matcher.get? id with
  | none => exact .refl state
  | some map =>
    rw [found] at settled
    exact (run_appendAll _ settled).trans (Move.run (.conclude id _))

/-! ## Merging -/

theorem run_tryMerge {further : PassState → MapId → PassState}
    (runs : ∀ state id, Run context fresh state (further state id)) (left : MapId)
    (state : PassState) (right : MapId) :
    Run context fresh state (tryMerge context further left state right) := by
  unfold tryMerge
  cases paid : state.matcher.spend? with
  | none => exact .refl state
  | some spent =>
    dsimp only
    unfold mergeWith
    dsimp only
    split
    · rename_i leftMap rightMap foundLeft foundRight
      split
      · exact Move.run (.check paid)
      · split
        · exact Move.run (.check paid)
        · rename_i merged exact united
          refine .step (.unite paid foundLeft foundRight united) ?_
          dsimp only
          cases exact with
          | true => exact run_append _ _
          | false => exact runs _ _
    · exact Move.run (.check paid)

theorem run_mergeAll (depth : Nat) (state : PassState) (id : MapId) :
    Run context fresh state (mergeAll context depth state id) := by
  induction depth generalizing state id with
  | zero => exact .refl state
  | succ depth ih =>
    unfold mergeAll
    split
    · exact .refl state
    · exact run_foldl (fun state right => run_tryMerge ih id state right) _ state

/-! ## Entities -/

/-- What was sown is developed: concluded if it fills a predicate set, else merged. -/
theorem develop_sown (context : PassContext) (state : PassState) (spent : Matcher) (law : LawId)
    (node : LawNodeId) (plan : PairPlan) :
    let sown := { state with matcher := (spent.allocate (.ofPlan law node plan)).2 }
    develop context sown spent.nextMap =
      if (Correspondence.ofPlan law node plan).Fills context.catalog then
        (sown.append context spent.nextMap).2
      else sown.checkIntersections context spent.nextMap := by
  intro sown
  unfold develop
  rw [Matcher.get?_allocate, if_pos rfl]
  rfl

theorem run_develop (context : PassContext) (state : PassState) (spent : Matcher) (law : LawId)
    (node : LawNodeId) (plan : PairPlan) :
    Run context fresh (state.sow context spent law node plan)
      (develop context { state with matcher := (spent.allocate (.ofPlan law node plan)).2 }
        spent.nextMap) := by
  rw [develop_sown]
  unfold sow
  dsimp only
  split
  · exact run_append _ _
  · exact run_mergeAll _ _ _

/-- Without budget nothing happens. Otherwise a seed is sown and developed, unless there is one
already or the entity does not match. -/
theorem checkSeed_cases (context : PassContext) (entity : EntityId)
    (progress : List MapId × PassState) (place : LawId × LawNodeId) :
    (progress.2.matcher.spend? = none ∧ checkSeed context entity progress place = progress) ∨
      ∃ spent, progress.2.matcher.spend? = some spent ∧
        (((spent.isSeeded ⟨entity, place.2⟩ = true ∨
            (Correspondence.empty place.1).plan? progress.2.relation context.catalog
              ⟨entity, place.2⟩ = none) ∧
            (checkSeed context entity progress place).2 =
              { progress.2 with matcher := spent }) ∨
          ∃ plan, (Correspondence.empty place.1).plan? progress.2.relation context.catalog
              ⟨entity, place.2⟩ = some plan ∧
            (checkSeed context entity progress place).2 = develop context { progress.2 with
              matcher := (spent.allocate (.ofPlan place.1 place.2 plan)).2 } spent.nextMap) := by
  obtain ⟨created, state⟩ := progress
  unfold checkSeed
  dsimp only
  cases paid : state.matcher.spend? with
  | none => exact Or.inl ⟨rfl, rfl⟩
  | some spent =>
    refine Or.inr ⟨spent, rfl, ?_⟩
    dsimp only
    cases seeded : spent.seed state.relation context.catalog place.1 ⟨entity, place.2⟩ with
    | mk outcome later =>
      cases outcome with
      | none =>
        obtain ⟨reason, rfl⟩ := Matcher.seed_eq_none seeded
        exact Or.inl ⟨reason, rfl⟩
      | some id =>
        obtain ⟨plan, planned, rfl, rfl⟩ := Matcher.seed_eq_some seeded
        exact Or.inr ⟨plan, planned, rfl⟩

theorem run_checkSeed (entity : EntityId) (progress : List MapId × PassState)
    {place : LawId × LawNodeId} (listed : place ∈ seedPlaces context.catalog) :
    Run context (fun pair => pair.entity = entity) progress.2
      (checkSeed context entity progress place).2 := by
  rcases checkSeed_cases context entity progress place with
    ⟨-, same⟩ | ⟨spent, paid, ⟨-, same⟩ | ⟨plan, planned, same⟩⟩
  · rw [same]
    exact .refl progress.2
  · rw [same]
    exact Move.run (.check paid)
  · rw [same]
    have here : (⟨entity, place.2⟩ : Pair).entity = entity := rfl
    exact .step (.seed paid listed here planned)
      (run_develop context progress.2 spent place.1 place.2 plan)

theorem run_foldl_checkSeed (entity : EntityId) {places : List (LawId × LawNodeId)}
    (listed : ∀ place ∈ places, place ∈ seedPlaces context.catalog)
    (progress : List MapId × PassState) :
    Run context (fun pair => pair.entity = entity) progress.2
      (places.foldl (checkSeed context entity) progress).2 := by
  induction places generalizing progress with
  | nil => exact .refl progress.2
  | cons first rest ih =>
    have head := run_checkSeed entity progress (listed first List.mem_cons_self)
    exact head.trans (ih (fun place member => listed place (List.mem_cons_of_mem first member)) _)

theorem run_checkEntity (context : PassContext) (state : PassState) (entity : EntityId) :
    Run context (fun pair => pair.entity = entity) state
      (checkEntity context state entity).2 :=
  run_foldl_checkSeed entity (fun _ listed => listed) ([], state)

/-! ## The relation of a pass -/

theorem relation_satisfyAt (context : PassContext) (state : PassState) (id : MapId) :
    (state.satisfyAt context id).relation = state.relation := by
  unfold satisfyAt
  cases state.matcher.get? id with
  | none => rfl
  | some map => exact state.relation_markSatisfied context map

theorem Move.extends {state later : PassState} (move : Move context fresh state later) :
    state.relation.Extends later.relation := by
  cases move with
  | check paid => exact state.relation.extends_refl
  | @seed spent law pair plan paid place allowed planned =>
    have same : (state.sow context spent law pair.node plan).relation = state.relation := by
      unfold sow
      dsimp only
      split
      · exact relation_satisfyAt context _ _
      · rfl
    rw [same]
    exact state.relation.extends_refl
  | unite paid foundLeft foundRight united =>
    split
    · rw [relation_satisfyAt]
      exact state.relation.extends_refl
    · exact state.relation.extends_refl
  | branch id node settled => exact (state.appendBranch_cases context id node).1
  | conclude id conclusions => exact state.relation.extends_refl

theorem Run.extends {state later : PassState} (run : Run context fresh state later) :
    state.relation.Extends later.relation := by
  induction run with
  | refl state => exact state.relation.extends_refl
  | step move _ ih => exact move.extends.trans ih

/-- The entity is noted as checked. -/
def noted (state : PassState) (tag : String) (entity : EntityId) : PassState :=
  { state with
    matcher := { state.matcher with checked := state.matcher.checked.insert entity tag }
    outcome := { state.outcome with
      stats := { state.outcome.stats with
        nodesChecked := state.outcome.stats.nodesChecked + 1 } } }

theorem run_visit (context : PassContext) (tag : String) (state : PassState) (entity : EntityId) :
    Run context (fun pair => pair.entity = entity) (state.noted tag entity)
      (state.visit context tag entity) :=
  run_checkEntity context (state.noted tag entity) entity

theorem extends_visit (context : PassContext) (tag : String) (state : PassState)
    (entity : EntityId) : state.relation.Extends (state.visit context tag entity).relation :=
  (run_visit context tag state entity).extends

theorem extends_foldl_visit (context : PassContext) (tag : String) (entities : List EntityId)
    (state : PassState) :
    state.relation.Extends (entities.foldl (visit context tag) state).relation := by
  induction entities generalizing state with
  | nil => exact state.relation.extends_refl
  | cons first rest ih => exact (extends_visit context tag state first).trans (ih _)

theorem extends_rounds (context : PassContext) (tag : String) (dirty : Std.ExtTreeSet EntityId)
    (limit : Nat) (seen : Std.ExtTreeSet EntityId) (state : PassState) :
    state.relation.Extends (rounds context tag dirty limit seen state).relation := by
  induction limit generalizing seen state with
  | zero => exact state.relation.extends_refl
  | succ limit ih =>
    unfold rounds
    dsimp only
    split
    · exact state.relation.extends_refl
    · exact (extends_foldl_visit context tag _ state).trans (ih _ _)

end PassState

namespace Matcher

/-- The matcher that a pass starts with. -/
def prepare (matcher : Matcher) (options : PassOptions) : Matcher :=
  { (if options.reset then matcher.reset else matcher) with checks := 0 }

/-- The state after all rounds of a pass. -/
def passed (matcher : Matcher) (relation : Relation) (catalog : Catalog) (options : PassOptions)
    (dirty : Std.ExtTreeSet EntityId) : PassState :=
  PassState.rounds ⟨catalog, options.tentative⟩ options.tag dirty
    ((matcher.prepare options).maxChecks + 2) ∅ ⟨matcher.prepare options, relation, .empty⟩

theorem matcher_evaluate (matcher : Matcher) (relation : Relation) (catalog : Catalog)
    (options : PassOptions) (dirty : Std.ExtTreeSet EntityId) :
    (matcher.evaluate relation catalog options dirty).matcher =
      (matcher.passed relation catalog options dirty).matcher := rfl

theorem relation_evaluate (matcher : Matcher) (relation : Relation) (catalog : Catalog)
    (options : PassOptions) (dirty : Std.ExtTreeSet EntityId) :
    (matcher.evaluate relation catalog options dirty).relation =
      (matcher.passed relation catalog options dirty).relation.recomputeDeep := rfl

theorem extends_evaluate (matcher : Matcher) (relation : Relation) (catalog : Catalog)
    (options : PassOptions) (dirty : Std.ExtTreeSet EntityId) :
    relation.Extends (matcher.evaluate relation catalog options dirty).relation := by
  have rounds := PassState.extends_rounds ⟨catalog, options.tentative⟩ options.tag dirty
    ((matcher.prepare options).maxChecks + 2) ∅ ⟨matcher.prepare options, relation, .empty⟩
  rw [relation_evaluate]
  exact rounds.trans (Relation.extends_recomputeDeep _)

end Matcher

end ConceptLaws
