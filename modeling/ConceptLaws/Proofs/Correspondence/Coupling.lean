import ConceptLaws.Proofs.Correspondence.Mates

/-! Seeds find their mates.
The later one of two mates is tried with the earlier one as soon as it is sown. They are united then,
unless a correspondence covers both of their pairs, and that one was built from them before. -/

namespace ConceptLaws.PassState

open Correspondence

/-- Wherever two mates were sown, a correspondence was built from both. -/
def Coupled (state : PassState) (catalog : Catalog) : Prop :=
  ∀ law first second planFirst planSecond,
    Mates state.relation catalog law first second planFirst planSecond →
    state.matcher.Seeded first → state.matcher.Seeded second → state.Joined first second

variable {context : PassContext} {catalog : Catalog} {fresh : Pair → Prop} {state later : PassState}
  {opening : Opening} {law : LawId} {first second : Pair} {planFirst planSecond : PairPlan}

theorem Enlarges.joined (enlarges : Enlarges catalog opening fresh state later)
    (joined : state.Joined first second) : later.Joined first second := by
  obtain ⟨id, map, found, built⟩ := joined
  exact ⟨id, map, enlarges.kept id map found, built⟩

/-- What was sown is in the relation. -/
theorem Traced.contains_of_seeded (traced : state.Traced catalog opening) (valid : catalog.Valid)
    {pair : Pair} (seeded : state.matcher.Seeded pair) :
    state.relation.contains pair.entity = true := by
  obtain ⟨id, map, found, at_⟩ := seeded
  obtain ⟨birth, derived, bears, -⟩ := traced.stems id map found
  have member := bears.deepPredicates ▸ at_.member
  obtain ⟨_, place, other, _, -, holds, present, -⟩ :=
    (derived.grounded valid).fits pair.node member pair.node .self
  obtain rfl := Option.some.inj (at_.held.symm.trans (bears.kept _ _ holds))
  exact Relation.contains_iff.2 ⟨other, present⟩

/-- What the registry names at a deep predicate was built from it. -/
theorem Traced.builtAt_of_registered (traced : state.Traced catalog opening) (valid : catalog.Valid)
    {pair : Pair} (place : (law, pair.node) ∈ seedPlaces catalog) {id : MapId}
    (listed : id ∈ state.matcher.registered pair) :
    ∃ map, state.matcher.get? id = some map ∧ map.BuiltAt pair := by
  obtain ⟨map, found, held, deep, built, needs⟩ := traced.registry pair id listed
  obtain ⟨birth, derived, bears, -⟩ := traced.stems id map found
  have rooted := (derived.grounded valid).rooted deep (bears.deepPredicates ▸ built)
  rw [bears.law] at needs
  have same : birth.law = law := valid.law_eq_of_isPredicate
    (valid.isPredicate_of_needs rooted needs) (isPredicate_of_mem_seedPlaces valid place)
  obtain ⟨owner, inside, member⟩ := List.mem_flatMap.1 place
  obtain ⟨lowest, among, named⟩ := List.mem_map.1 member
  obtain ⟨rfl, rfl⟩ := Prod.mk.inj named
  rw [same] at rooted needs
  obtain rfl := valid.eq_of_needs_deep inside rooted among needs
  exact ⟨map, found, built, held⟩

/-- What counts as seeded has a seed. -/
theorem Traced.seeded_of_isSeeded (traced : state.Traced catalog opening) {pair : Pair}
    (seeded : state.matcher.isSeeded pair = true) : state.matcher.Seeded pair := by
  unfold Matcher.isSeeded at seeded
  obtain ⟨id, listed, single⟩ := List.any_eq_true.1 seeded
  obtain ⟨map, found, held, -⟩ := traced.registry pair id (Std.ExtTreeSet.mem_toList.1 listed)
  simp only [found, Bool.and_eq_true, beq_iff_eq] at single
  exact ⟨id, map, found, single.1, Std.ExtTreeSet.mem_iff_contains.2 single.2, held⟩

/-- An unfilled seed is open. -/
theorem Traced.open_of_unfilled (traced : state.Traced catalog opening) (valid : catalog.Valid)
    {id : MapId} {map : Correspondence} (found : state.matcher.get? id = some map) {pair : Pair}
    (seeded : map.SeededAt pair) {plan : PairPlan} (place : (law, pair.node) ∈ seedPlaces catalog)
    (planned : (empty law).plan? state.relation catalog pair = some plan)
    (unfilled : ¬ (ofPlan law pair.node plan).Fills catalog) :
    map.satisfied = false ∧ (ofPlan law pair.node plan).Bears false map := by
  obtain ⟨bears, fills, -⟩ := traced.birth_of_seed valid found seeded place planned
  have open_ : map.satisfied = false := Bool.eq_false_iff.2 fun satisfied => unfilled (fills.1 satisfied)
  exact ⟨open_, open_ ▸ bears⟩

/-! ## Merging -/

/-- The seeds of two mates are under two identifiers. -/
structure Sows (state : PassState) (left right : MapId) (first second : Pair) : Prop where
  left : ∃ map, state.matcher.get? left = some map ∧ map.SeededAt first
  right : ∃ map, state.matcher.get? right = some map ∧ map.SeededAt second

theorem Enlarges.sows (enlarges : Enlarges catalog opening fresh state later) {left right : MapId}
    (sows : state.Sows left right first second) : later.Sows left right first second := by
  obtain ⟨leftMap, foundLeft, seededLeft⟩ := sows.left
  obtain ⟨rightMap, foundRight, seededRight⟩ := sows.right
  exact ⟨⟨leftMap, enlarges.kept _ _ foundLeft, seededLeft⟩,
    ⟨rightMap, enlarges.kept _ _ foundRight, seededRight⟩⟩

/-- What covers the pairs of mates was built from both. -/
theorem Traced.joined_of_covering (traced : state.Traced catalog opening) (valid : catalog.Valid)
    (mates : Mates state.relation catalog law first second planFirst planSecond) {id : MapId}
    (covers : id ∈ state.matcher.covering [first, second]) : state.Joined first second := by
  have registered := Matcher.registered_of_covering covers
  obtain ⟨map, found, builtFirst⟩ := traced.builtAt_of_registered valid mates.placeFirst
    (registered first List.mem_cons_self)
  obtain ⟨other, foundToo, builtSecond⟩ := traced.builtAt_of_registered valid mates.placeSecond
    (registered second (List.mem_cons_of_mem _ List.mem_cons_self))
  obtain rfl := Option.some.inj (found.symm.trans foundToo)
  exact ⟨id, map, found, builtFirst, builtSecond⟩

/-- The seeds of mates are united like those that were planned. -/
theorem Traced.unites_seeds (traced : state.Traced catalog opening) (valid : catalog.Valid)
    (mates : Mates state.relation catalog law first second planFirst planSecond)
    {left right : MapId} {leftMap rightMap : Correspondence}
    (foundLeft : state.matcher.get? left = some leftMap) (seededLeft : leftMap.SeededAt first)
    (foundRight : state.matcher.get? right = some rightMap) (seededRight : rightMap.SeededAt second)
    {matcher : Matcher} (uncovered : matcher.covering [first, second] = []) :
    ∃ merged exact, matcher.Unites catalog leftMap rightMap merged exact ∧ merged.BuiltAt first ∧
      merged.BuiltAt second := by
  obtain ⟨openLeft, bearsLeft⟩ := traced.open_of_unfilled valid foundLeft seededLeft
    mates.placeFirst mates.plannedFirst mates.unfilledFirst
  obtain ⟨openRight, bearsRight⟩ := traced.open_of_unfilled valid foundRight seededRight
    mates.placeSecond mates.plannedSecond mates.unfilledSecond
  obtain ⟨merged, exact_, unites⟩ := mates.unites uncovered
  exact ⟨merged, exact_, unites_congr openLeft openRight (bearsLeft.coincides rfl).symm
    (bearsRight.coincides rfl).symm bearsLeft.deepPredicates.symm bearsRight.deepPredicates.symm
    unites, mates.builtAt_merged valid unites⟩

section Merging

variable {ending : Ending context.catalog} (valid : context.catalog.Valid)
  (plain : context.tentative = false)

include valid plain

/-- Trying two mates that nothing covers unites them. -/
theorem Traced.joined_of_uncovered (traced : state.Traced context.catalog ending.toOpening)
    {further : PassState → MapId → PassState}
    (turns : ∀ state id, Turns context nowhere state (further state id))
    (mates : Mates state.relation context.catalog law first second planFirst planSecond)
    {left right : MapId} (sows : state.Sows left right first second)
    (uncovered : state.matcher.covering [first, second] = [])
    (heads : (tryMerge context further left state right).Heads ending) (spare : state.Spare) :
    (tryMerge context further left state right).Joined first second := by
  obtain ⟨spent, paid⟩ := spare.exists_spend
  have same := Matcher.spend?_eq_some paid
  obtain ⟨leftMap, foundLeft, seededLeft⟩ := sows.left
  obtain ⟨rightMap, foundRight, seededRight⟩ := sows.right
  have different : left ≠ right := by
    rintro rfl
    obtain rfl := Option.some.inj (foundLeft.symm.trans foundRight)
    exact mates.different (seededRight.node_eq seededLeft.member)
  have uncoveredToo : spent.covering [first, second] = [] := same.2 ▸ uncovered
  have foundLeftToo : spent.get? left = some leftMap := same.2 ▸ foundLeft
  have foundRightToo : spent.get? right = some rightMap := same.2 ▸ foundRight
  obtain ⟨merged, exact_, unites, builtFirst, builtSecond⟩ := traced.unites_seeds valid mates
    foundLeft seededLeft foundRight seededRight uncoveredToo
  have turn : Turn context nowhere state _ := turn_unite paid foundLeftToo foundRightToo unites
  obtain ⟨made, foundMade, -, bears⟩ := (makes_unite paid unites).found
  have rest : Turns context nowhere (state.settleTaken context
      (spent.allocateUnion leftMap rightMap merged).2 spent.nextMap exact_)
      (tryMerge context further left state right) := by
    rw [tryMerge_eq paid foundLeftToo foundRightToo different unites further]
    cases exact_ with
    | true => exact .refl
    | false => exact turns _ _
  have enlarges := turn.enlarges valid plain traced (rest.advances.heads heads)
  exact (rest.enlarges valid plain enlarges.traced heads).joined
    ⟨_, made, foundMade, bears.builtAt builtFirst, bears.builtAt builtSecond⟩

/-- Trying two mates leaves a correspondence that was built from both. -/
theorem Traced.joined_tryMerge (traced : state.Traced context.catalog ending.toOpening)
    {further : PassState → MapId → PassState}
    (turns : ∀ state id, Turns context nowhere state (further state id))
    (mates : Mates state.relation context.catalog law first second planFirst planSecond)
    {left right : MapId} (sows : state.Sows left right first second)
    (heads : (tryMerge context further left state right).Heads ending) (spare : state.Spare) :
    (tryMerge context further left state right).Joined first second := by
  by_cases uncovered : state.matcher.covering [first, second] = []
  · exact traced.joined_of_uncovered valid plain turns mates sows uncovered heads spare
  · obtain ⟨id, covers⟩ := List.exists_mem_of_ne_nil _ uncovered
    exact ((turns_tryMerge turns left state right).enlarges valid plain traced heads).joined
      (traced.joined_of_covering valid mates covers)

theorem joined_foldl_tryMerge {further : PassState → MapId → PassState}
    (turns : ∀ state id, Turns context nowhere state (further state id)) {left right : MapId}
    {rights : List MapId} (member : right ∈ rights) :
    ∀ {state : PassState}, state.Traced context.catalog ending.toOpening →
      Mates state.relation context.catalog law first second planFirst planSecond →
      state.Sows left right first second →
      (rights.foldl (tryMerge context further left) state).Heads ending →
      (rights.foldl (tryMerge context further left) state).Spare →
      (rights.foldl (tryMerge context further left) state).Joined first second := by
  induction rights with
  | nil => simp at member
  | cons head rest ih =>
    intro state traced mates sows heads spare
    have turn : Turns context nowhere state (tryMerge context further left state head) :=
      turns_tryMerge turns left state head
    have others : Turns context nowhere (tryMerge context further left state head)
        (rest.foldl (tryMerge context further left) (tryMerge context further left state head)) :=
      turns_foldl (fun state right => turns_tryMerge turns left state right) rest _
    have headsHere := others.advances.heads heads
    have enlarges := turn.enlarges valid plain traced headsHere
    rcases List.mem_cons.1 member with rfl | later
    · have joined := traced.joined_tryMerge valid plain turns mates sows headsHere
        (turn.advances.spare (others.advances.spare spare))
      exact (others.enlarges valid plain enlarges.traced heads).joined joined
    · exact ih later enlarges.traced (mates.gains enlarges.gains traced.counted.firm)
        (enlarges.sows sows) heads spare

/-- Looking for what a seed can be merged with finds its mate. -/
theorem Traced.joined_checkIntersections (traced : state.Traced context.catalog ending.toOpening)
    (mates : Mates state.relation context.catalog law first second planFirst planSecond)
    {left right : MapId} (sows : state.Sows left right first second)
    (heads : (state.checkIntersections context left).Heads ending)
    (spare : (state.checkIntersections context left).Spare) :
    (state.checkIntersections context left).Joined first second := by
  have turns : Turns context nowhere state (state.checkIntersections context left) :=
    turns_mergeAll state.matcher.budget state left
  obtain ⟨depth, available⟩ : ∃ depth, state.matcher.budget = depth + 1 := by
    apply Nat.exists_eq_succ_of_ne_zero
    have before := turns.advances.spare spare
    unfold Spare at before
    unfold Matcher.budget
    omega
  obtain ⟨leftMap, foundLeft, seededLeft⟩ := sows.left
  obtain ⟨rightMap, foundRight, seededRight⟩ := sows.right
  obtain ⟨-, bearsLeft⟩ := traced.open_of_unfilled valid foundLeft seededLeft
    mates.placeFirst mates.plannedFirst mates.unfilledFirst
  obtain ⟨openRight, bearsRight⟩ := traced.open_of_unfilled valid foundRight seededRight
    mates.placeSecond mates.plannedSecond mates.unfilledSecond
  have candidate : right ∈ state.matcher.candidates leftMap := by
    apply Matcher.mem_candidates traced.named foundRight
    · rw [bearsRight.law, bearsLeft.law, law_ofPlan, law_ofPlan]
    · exact openRight
    · rw [traced.named left leftMap foundLeft]
      rintro rfl
      obtain rfl := Option.some.inj (foundLeft.symm.trans foundRight)
      exact mates.different (seededRight.node_eq seededLeft.member)
  have unfolded : state.checkIntersections context left =
      (state.matcher.candidates leftMap).foldl (tryMerge context (mergeAll context depth) left)
        state := by
    unfold checkIntersections
    rw [available, mergeAll, foundLeft]
  rw [unfolded] at heads spare ⊢
  exact joined_foldl_tryMerge valid plain (turns_mergeAll depth) candidate traced mates sows heads
    spare

/-! ## Sowing -/

/-- A seed that is sown finds the mates that were sown before. -/
theorem Traced.joined_checkSeed {entity : EntityId} {progress : List MapId × PassState}
    {place : LawId × LawNodeId} (traced : progress.2.Traced context.catalog ending.toOpening)
    (tried : place ∈ seedPlaces context.catalog)
    (unseeded : ¬ progress.2.matcher.Seeded ⟨entity, place.2⟩)
    (seeded : (checkSeed context entity progress place).2.matcher.Seeded ⟨entity, place.2⟩)
    (before : progress.2.matcher.Seeded second)
    (mates : Mates (checkSeed context entity progress place).2.relation context.catalog law
      ⟨entity, place.2⟩ second planFirst planSecond)
    (heads : (checkSeed context entity progress place).2.Heads ending)
    (spare : (checkSeed context entity progress place).2.Spare) :
    (checkSeed context entity progress place).2.Joined ⟨entity, place.2⟩ second := by
  have enlarges := (turns_checkSeed entity progress tried).enlarges valid plain traced heads
  have firm := traced.counted.firm
  rcases checkSeed_cases context entity progress place with
    ⟨-, same⟩ | ⟨spent, paid, ⟨-, same⟩ | ⟨plan, planned, same⟩⟩
  · exact (unseeded (same ▸ seeded)).elim
  · obtain ⟨-, rfl⟩ := Matcher.spend?_eq_some paid
    rw [same] at seeded
    exact (unseeded seeded).elim
  · have wider := enlarges.gains.wider
    have matesHere := mates.of_unmoved firm (wider.unmoved (exists_cons_of_plan planned).2)
      (wider.unmoved (traced.contains_of_seeded valid before))
    obtain rfl : place.1 = law := valid.law_eq_of_isPredicate
      (isPredicate_of_mem_seedPlaces valid tried)
      (isPredicate_of_mem_seedPlaces valid mates.placeFirst)
    obtain rfl := Option.some.inj (planned.symm.trans matesHere.plannedFirst)
    have open_ : ¬ (ofPlan place.1 place.2 plan).Fills context.catalog := mates.unfilledFirst
    rw [develop_eq, if_neg open_] at same
    have turn : Turn context (fun pair => pair = ⟨entity, place.2⟩) progress.2 _ :=
      turn_sow progress.2 paid tried rfl planned
    have makes := @makes_sow context progress.2 spent paid place.1 place.2 plan
      (decide ((ofPlan place.1 place.2 plan).Fills context.catalog))
    generalize settleTaken context progress.2 (spent.allocate (ofPlan place.1 place.2 plan)).2
      spent.nextMap (decide ((ofPlan place.1 place.2 plan).Fills context.catalog)) = sown at *
    have headsHere : sown.Heads ending := by
      rw [same] at heads
      exact (turns_mergeAll sown.matcher.budget sown _ : Turns context nowhere sown _).advances.heads
        heads
    have sows := turn.enlarges valid plain traced headsHere
    obtain ⟨made, found, -, bears⟩ := makes.found
    obtain ⟨id, map, foundToo, seededToo⟩ := before
    obtain ⟨-, rfl⟩ := Matcher.spend?_eq_some paid
    rw [same] at heads spare ⊢
    exact sows.traced.joined_checkIntersections valid plain (matesHere.gains sows.gains firm)
      ⟨⟨made, found, bears.seededAt (seededAt_ofPlan planned)⟩,
        ⟨map, sows.kept id map foundToo, seededToo⟩⟩ heads spare

/-- Mates are still joined after an entity was tried. -/
theorem Coupled.checkSeed {entity : EntityId} {progress : List MapId × PassState}
    {place : LawId × LawNodeId} (coupled : progress.2.Coupled context.catalog)
    (traced : progress.2.Traced context.catalog ending.toOpening)
    (tried : place ∈ seedPlaces context.catalog)
    (heads : (checkSeed context entity progress place).2.Heads ending)
    (spare : (checkSeed context entity progress place).2.Spare) :
    (checkSeed context entity progress place).2.Coupled context.catalog := by
  have enlarges := (turns_checkSeed entity progress tried).enlarges valid plain traced heads
  intro law first second planFirst planSecond mates seededFirst seededSecond
  by_cases beforeFirst : progress.2.matcher.Seeded first
  · by_cases beforeSecond : progress.2.matcher.Seeded second
    · have wider := enlarges.gains.wider
      have matesBefore := mates.of_unmoved traced.counted.firm
        (wider.unmoved (traced.contains_of_seeded valid beforeFirst))
        (wider.unmoved (traced.contains_of_seeded valid beforeSecond))
      exact enlarges.joined
        (coupled law first second planFirst planSecond matesBefore beforeFirst beforeSecond)
    · obtain rfl := (enlarges.origin second seededSecond).resolve_left beforeSecond
      exact (traced.joined_checkSeed valid plain tried beforeSecond seededSecond beforeFirst mates.symm
        heads spare).symm
  · obtain rfl := (enlarges.origin first seededFirst).resolve_left beforeFirst
    have beforeSecond : progress.2.matcher.Seeded second := by
      refine (enlarges.origin second seededSecond).resolve_right ?_
      rintro rfl
      exact mates.different rfl
    exact traced.joined_checkSeed valid plain tried beforeFirst seededFirst beforeSecond mates heads
      spare

end Merging

end ConceptLaws.PassState
