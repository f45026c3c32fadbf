import ConceptLaws.Proofs.Correspondence.Halves

/-! The search for an assignment.
Trying an entity at its deep predicate leaves a seed there. When the last seed of an assignment is
sown it is tried with the one before, and that finds the assignment as long as there are checks left.
-/

namespace ConceptLaws.PassState

/-- There is a check left. -/
def Spare (state : PassState) : Prop := state.matcher.checks < state.matcher.maxChecks

/-- The books of a pass are in order, and the assignment is one of its relation. -/
structure Seeks (state : PassState) (catalog : Catalog) (law : Law) (place : LawNodeId → EntityId) :
    Prop where
  tracked : state.Tracked catalog law
  places : law.Places catalog state.relation place

/-- The assignment is found once all its seeds are there. -/
structure Attains (state : PassState) (catalog : Catalog) (law : Law)
    (place : LawNodeId → EntityId) : Prop extends state.Seeks catalog law place where
  found : state.matcher.Sown law place → state.matcher.Finds law place

variable {context : PassContext} {catalog : Catalog} {law : Law} {place : LawNodeId → EntityId}
  {fresh : Pair → Prop} {state later : PassState}

theorem Spare.exists_spend (spare : state.Spare) : ∃ spent, state.matcher.spend? = some spent := by
  unfold Matcher.spend?
  rw [if_neg (Nat.not_le.2 spare)]
  exact ⟨_, rfl⟩

theorem Grows.spare (grows : Grows catalog law fresh state later) (spare : later.Spare) :
    state.Spare := by
  have checks := grows.checks
  have limit := grows.limit
  unfold Spare at *
  omega

theorem Seeks.grow (seeks : state.Seeks catalog law place)
    (grows : Grows catalog law fresh state later) : later.Seeks catalog law place :=
  ⟨grows.tracked, seeks.places.extend grows.wider⟩

/-- A list of two has no third element. -/
theorem eq_or_eq_of_length_le_two {α : Type} {list : List α} (few : list.length ≤ 2)
    {first second : α} (inFirst : first ∈ list) (inSecond : second ∈ list)
    (different : first ≠ second) : ∀ item ∈ list, item = first ∨ item = second := by
  rcases list with _ | ⟨one, _ | ⟨two, _ | ⟨three, rest⟩⟩⟩
  · simp
  · simp only [List.mem_singleton] at inFirst inSecond
    exact (different (inFirst.trans inSecond.symm)).elim
  · grind
  · simp at few

/-- A new seed is satisfied if it fills a predicate set. -/
theorem found_sow (context : PassContext) (state : PassState) (spent : Matcher) {law : LawId}
    {pair : Pair} {plan : PairPlan} (seeded : (Correspondence.ofPlan law pair.node plan).SeededAt pair) :
    ∃ map, (state.sow context spent law pair.node plan).matcher.get? spent.nextMap = some map ∧
      map.law = law ∧ map.SeededAt pair ∧
      (map.satisfied = true ↔ (Correspondence.ofPlan law pair.node plan).Fills context.catalog) := by
  have takes := spent.takesIn_allocate (.ofPlan law pair.node plan)
  have open_ := Correspondence.satisfied_ofPlan law pair.node plan
  have named := Correspondence.law_ofPlan law pair.node plan
  unfold sow
  dsimp only
  split
  · rename_i fills
    have marked := @takesIn_satisfyAt { state with matcher := _ } context spent _ takes open_
    refine ⟨_, (marked.found _).trans (if_pos rfl), named, ?_, by simp [fills]⟩
    exact ⟨seeded.single, seeded.member, seeded.held⟩
  · rename_i partial_
    refine ⟨_, (takes.found _).trans (if_pos rfl), named, ?_, ?_⟩
    · exact ⟨seeded.single, seeded.member, seeded.held⟩
    · exact iff_of_false (by simp [Matcher.taken, open_]) partial_

/-- The deep predicates of a law are where entities are tried. -/
theorem mem_seedPlaces (listed : law ∈ catalog.laws) {deep : LawNodeId}
    (lowest : deep ∈ law.deepPredicates) : (law.id, deep) ∈ seedPlaces catalog :=
  List.mem_flatMap.2 ⟨law, listed, List.mem_map.2 ⟨deep, lowest, rfl⟩⟩

section Search

variable (valid : context.catalog.Valid) (plain : context.catalog.Asymmetric)
  (listed : law ∈ context.catalog.laws) (single : law.predicateSets.length = 1)

include valid plain listed single

/-! ## Merging -/

/-- Trying one seed of an assignment with the other one finds it. -/
theorem Seeks.finds_tryMerge (seeks : state.Seeks context.catalog law place)
    {further : PassState → MapId → PassState}
    (runs : ∀ state id, Run context nowhere state (further state id)) {left right : MapId}
    {first second : LawNodeId} (halves : state.matcher.Halves law place left right first second)
    (spare : state.Spare) : (tryMerge context further left state right).matcher.Finds law place := by
  obtain ⟨spent, paid⟩ := spare.exists_spend
  by_cases uncovered : state.matcher.covering [placed place first, placed place second] = []
  · have spending := seeks.tracked.grows_spend paid nowhere
    have kept := spending.halves halves
    obtain ⟨leftMap, foundLeft, seededLeft⟩ := kept.left
    obtain ⟨rightMap, foundRight, seededRight⟩ := kept.right
    have uncoveredToo : spent.covering [placed place first, placed place second] = [] := by
      obtain ⟨-, rfl⟩ := Matcher.spend?_eq_some paid
      exact uncovered
    obtain ⟨merged, unites⟩ := spending.tracked.unites_halves valid plain listed single seeks.places
      kept foundLeft foundRight uncoveredToo
    have united := Matcher.union?_eq_some.2 unites
    have move : Move context nowhere state _ := .unite paid foundLeft foundRight united
    rw [if_pos rfl] at move
    have grows := move.grows valid listed single seeks.tracked
    have finds := grows.tracked.finds_of_takesIn valid plain listed (seeks.grow grows).places
      spending.tracked kept foundLeft foundRight unites
      (takesIn_satisfyAt context ((spent.takesIn_allocate merged).update rfl rfl)
        unites.satisfied_merged) rfl rfl rfl
    have distinct : left ≠ right := by
      intro same
      obtain rfl := Option.some.inj ((same ▸ foundLeft).symm.trans foundRight)
      exact halves.different (seededRight.node_eq seededLeft.member)
    have concluded : tryMerge context further left state right =
        (append context { state with matcher := (spent.allocateUnion leftMap rightMap merged).2 }
          (spent.allocateUnion leftMap rightMap merged).1).2 := by
      unfold tryMerge mergeWith
      rw [paid]
      dsimp only at foundLeft foundRight united ⊢
      rw [foundLeft, foundRight]
      dsimp only
      rw [if_neg distinct, united]
      rfl
    rw [concluded]
    exact ((@run_append context nowhere _ _).grows valid listed single grows.tracked).finds finds
  · obtain ⟨id, covers⟩ := List.exists_mem_of_ne_nil _ uncovered
    have registered := Matcher.registered_of_covering covers
    have run := run_tryMerge runs left state right
    have everywhere : ∀ deep ∈ law.deepPredicates,
        id ∈ state.matcher.registered (placed place deep) := by
      intro deep lowest
      apply registered
      rcases halves.all deep lowest with rfl | rfl
      · exact List.mem_cons_self
      · exact List.mem_cons_of_mem _ List.mem_cons_self
    have finds := seeks.tracked.finds_of_registered valid plain listed single seeks.places everywhere
    exact (run.grows valid listed single seeks.tracked).finds finds

theorem Seeks.finds_foldl_tryMerge {further : PassState → MapId → PassState}
    (runs : ∀ state id, Run context nowhere state (further state id)) {left right : MapId}
    {first second : LawNodeId} {rights : List MapId} (member : right ∈ rights) :
    ∀ {state : PassState}, state.Seeks context.catalog law place →
      state.matcher.Halves law place left right first second →
      (rights.foldl (tryMerge context further left) state).Spare →
      (rights.foldl (tryMerge context further left) state).matcher.Finds law place := by
  induction rights with
  | nil => simp at member
  | cons head rest ih =>
    intro state seeks halves spare
    have grows := (run_tryMerge runs left state head).grows valid listed single seeks.tracked
    have rest_ := (run_foldl (fun state right => run_tryMerge runs left state right) rest
      (tryMerge context further left state head)).grows valid listed single grows.tracked
    rcases List.mem_cons.1 member with rfl | later
    · refine rest_.finds (seeks.finds_tryMerge valid plain listed single runs halves ?_)
      exact grows.spare (rest_.spare spare)
    · exact ih later (seeks.grow grows) (grows.halves halves) spare

/-- Looking for what a seed can be merged with finds the other seed of an assignment. -/
theorem Seeks.finds_checkIntersections (seeks : state.Seeks context.catalog law place)
    {left right : MapId} {first second : LawNodeId}
    (halves : state.matcher.Halves law place left right first second)
    (spare : (state.checkIntersections context left).Spare) :
    (state.checkIntersections context left).matcher.Finds law place := by
  have run : Run context nowhere state (state.checkIntersections context left) :=
    run_mergeAll state.matcher.budget state left
  have grows := run.grows valid listed single seeks.tracked
  obtain ⟨depth, available⟩ : ∃ depth, state.matcher.budget = depth + 1 := by
    apply Nat.exists_eq_succ_of_ne_zero
    have before := grows.spare spare
    unfold Spare at before
    unfold Matcher.budget
    omega
  obtain ⟨leftMap, foundLeft, seededLeft⟩ := halves.left
  obtain ⟨rightMap, foundRight, seededRight⟩ := halves.right
  have candidate : right ∈ state.matcher.candidates leftMap := by
    apply Matcher.mem_candidates seeks.tracked.grounded.named foundRight
    · rw [seeks.tracked.law_of_seed valid listed foundRight halves.secondDeep seededRight,
        seeks.tracked.law_of_seed valid listed foundLeft halves.firstDeep seededLeft]
    · exact seeks.tracked.open_seed valid listed foundRight halves.secondDeep halves.firstDeep
        halves.different seededRight
    · rw [seeks.tracked.grounded.named left leftMap foundLeft]
      intro same
      obtain rfl := Option.some.inj ((same ▸ foundRight).symm.trans foundLeft)
      exact halves.different (seededRight.node_eq seededLeft.member)
  have unfolded : state.checkIntersections context left =
      (state.matcher.candidates leftMap).foldl (tryMerge context (mergeAll context depth) left)
        state := by
    unfold checkIntersections
    rw [available, mergeAll, foundLeft]
  rw [unfolded] at spare ⊢
  exact finds_foldl_tryMerge valid plain listed single (run_mergeAll depth) candidate seeks halves
    spare

/-! ## Seeds -/

omit plain in
/-- What is planned is sown, and then developed. -/
theorem Seeks.grows_develop (seeks : state.Seeks context.catalog law place) {spent : Matcher}
    (paid : state.matcher.spend? = some spent) {lawId : LawId} {pair : Pair}
    (spot : (lawId, pair.node) ∈ seedPlaces context.catalog) {plan : PairPlan}
    (planned : (Correspondence.empty lawId).plan? state.relation context.catalog pair = some plan)
    (developed : later = develop context
      { state with matcher := (spent.allocate (.ofPlan lawId pair.node plan)).2 } spent.nextMap) :
    Grows context.catalog law (fun other => other = pair) state
        (state.sow context spent lawId pair.node plan) ∧
      Grows context.catalog law nowhere (state.sow context spent lawId pair.node plan) later := by
  have move : Move context (fun other => other = pair) state
      (state.sow context spent lawId pair.node plan) := .seed paid spot rfl planned
  have sows := move.grows valid listed single seeks.tracked
  have run := @run_develop nowhere context state spent lawId pair.node plan
  rw [← developed] at run
  exact ⟨sows, run.grows valid listed single sows.tracked⟩

/-- Developing the last seed of an assignment finds it. -/
theorem Seeks.finds_develop (seeks : state.Seeks context.catalog law place)
    (few : law.deepPredicates.length ≤ 2) {spent : Matcher}
    (paid : state.matcher.spend? = some spent) {deep : LawNodeId}
    (lowest : deep ∈ law.deepPredicates) {plan : PairPlan}
    (planned : (Correspondence.empty law.id).plan? state.relation context.catalog
      (placed place deep) = some plan)
    (developed : later = develop context
      { state with matcher := (spent.allocate (.ofPlan law.id deep plan)).2 } spent.nextMap)
    (sown : later.matcher.Sown law place) (spare : later.Spare) :
    later.matcher.Finds law place := by
  obtain ⟨sows, grows⟩ := @grows_develop context law place state later valid listed single seeks
    spent paid law.id (placed place deep) (mem_seedPlaces listed lowest) plan planned developed
  have seeds := seeks.grow sows
  obtain ⟨map, found, named, seeded, settled⟩ :=
    found_sow context state spent (Correspondence.seededAt_ofPlan planned)
  have all := (seeds.tracked.matcher.maps _ map found).settled named
  by_cases fills : (Correspondence.ofPlan law.id deep plan).Fills context.catalog
  · refine grows.finds (seeds.tracked.finds_of_anchored valid plain listed seeds.places found named ?_)
    intro other lowestToo
    have built := all.1 (settled.2 fills) other lowestToo
    obtain rfl : other = deep := seeded.node_eq built
    exact ⟨built, seeded.held⟩
  · -- Another deep predicate is missing, and there is a seed for it.
    obtain ⟨other, lowestToo, missing⟩ : ∃ other ∈ law.deepPredicates,
        other ∉ map.deepPredicates := by
      by_contra complete
      refine fills (settled.1 (all.2 fun other lowestToo => ?_))
      by_contra missing
      exact complete ⟨other, lowestToo, missing⟩
    have different : deep ≠ other := fun same => missing (same ▸ seeded.member)
    obtain ⟨right, rightMap, foundRight, seededRight⟩ :=
      (grows.seeded_origin seeds.tracked (sown other lowestToo)).resolve_right id
    have halves : (state.sow context spent law.id deep plan).matcher.Halves law place spent.nextMap
        right deep other :=
      ⟨lowest, lowestToo, different, eq_or_eq_of_length_le_two few lowest lowestToo different,
        ⟨map, found, seeded⟩, ⟨rightMap, foundRight, seededRight⟩⟩
    have unfinished : state.sow context spent law.id deep plan =
        { state with matcher := (spent.allocate (.ofPlan law.id deep plan)).2 } := if_neg fills
    have merging : later = (state.sow context spent law.id deep plan).checkIntersections context
        spent.nextMap := by
      rw [developed, develop_sown, if_neg fills, unfinished]
    rw [merging] at spare ⊢
    exact seeds.finds_checkIntersections valid plain listed single halves spare

/-- Trying an entity at a deep predicate of an assignment leaves a seed there. -/
theorem Seeks.seeded_checkSeed {deep : LawNodeId} (lowest : deep ∈ law.deepPredicates)
    {progress : List MapId × PassState} (seeks : progress.2.Seeks context.catalog law place)
    (spare : (checkSeed context (place deep) progress (law.id, deep)).2.Spare) :
    (checkSeed context (place deep) progress (law.id, deep)).2.matcher.Seeded
      (placed place deep) := by
  have grows := (run_checkSeed (place deep) progress (mem_seedPlaces listed lowest)).grows valid
    listed single seeks.tracked
  obtain ⟨plan, planned⟩ :=
    seeks.places.exists_plan valid plain listed (Law.mem_deepPredicates.1 lowest).1
  rcases checkSeed_cases context (place deep) progress (law.id, deep) with
    ⟨broke, -⟩ | ⟨spent, paid, ⟨refused, same⟩ | ⟨other, planned, same⟩⟩
  · obtain ⟨spent, paid⟩ := (grows.spare spare).exists_spend
    simp [broke] at paid
  · rcases refused with seeded | unplanned
    · rw [same]
      exact (seeks.tracked.grows_spend paid nowhere).tracked.matcher.seeded_of_isSeeded seeded
    · exact absurd (planned.symm.trans unplanned) (by simp)
  · obtain ⟨-, develops⟩ :=
      seeks.grows_develop valid listed single paid (mem_seedPlaces listed lowest) planned same
    obtain ⟨map, found, -, seeded, -⟩ :=
      found_sow context progress.2 spent (Correspondence.seededAt_ofPlan planned)
    exact develops.seeded ⟨_, map, found, seeded⟩

/-- However an entity is tried, an assignment is found with its last seed. -/
theorem Attains.checkSeed {progress : List MapId × PassState}
    (attains : progress.2.Attains context.catalog law place) (few : law.deepPredicates.length ≤ 2)
    (entity : EntityId) {spot : LawId × LawNodeId} (tried : spot ∈ seedPlaces context.catalog)
    (spare : (checkSeed context entity progress spot).2.Spare) :
    (checkSeed context entity progress spot).2.Attains context.catalog law place := by
  have grows := (run_checkSeed entity progress tried).grows valid listed single attains.tracked
  refine ⟨attains.toSeeks.grow grows, fun sown => ?_⟩
  by_cases before : progress.2.matcher.Sown law place
  · exact grows.finds (attains.found before)
  · rcases checkSeed_cases context entity progress spot with
      ⟨-, same⟩ | ⟨spent, paid, ⟨-, same⟩ | ⟨plan, planned, same⟩⟩
    · exact (before (same ▸ sown)).elim
    · obtain ⟨-, rfl⟩ := Matcher.spend?_eq_some paid
      rw [same] at sown
      exact (before sown).elim
    · obtain ⟨deep, lowest, unseeded⟩ : ∃ deep ∈ law.deepPredicates,
          ¬progress.2.matcher.Seeded (placed place deep) := by
        simpa [Matcher.Sown] using before
      obtain ⟨sows, develops⟩ :=
        attains.grows_develop valid listed single paid tried planned same
      have here : placed place deep = ⟨entity, spot.2⟩ := by
        have inSown := (develops.seeded_origin sows.tracked (sown deep lowest)).resolve_right id
        exact (sows.seeded_origin attains.tracked inSown).resolve_left unseeded
      obtain ⟨lawId, node⟩ := spot
      obtain ⟨rfl, rfl⟩ := Pair.mk.inj here
      obtain rfl : lawId = law.id := by
        apply valid.law_eq_of_isPredicate (isPredicate_of_mem_seedPlaces valid tried)
        rw [valid.isPredicate_eq listed]
        exact (Law.mem_deepPredicates.1 lowest).1
      exact attains.finds_develop valid plain listed single few paid lowest planned same sown spare

end Search

end ConceptLaws.PassState
