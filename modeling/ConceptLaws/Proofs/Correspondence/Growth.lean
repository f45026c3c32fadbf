import ConceptLaws.Proofs.Correspondence.Bookkeeping

/-! Growth of a pass.
Whatever moves a pass makes, its books stay in order, correspondences stay and ripen, and those that
are new are unions or were seeded where the moves may sow. -/

namespace ConceptLaws

namespace Matcher

theorem spend?_eq_some {matcher spent : Matcher} (paid : matcher.spend? = some spent) :
    matcher.checks < matcher.maxChecks ∧ spent = { matcher with checks := matcher.checks + 1 } := by
  unfold spend? at paid
  split at paid
  · simp at paid
  · exact ⟨by omega, (Option.some.inj paid).symm⟩

/-- A correspondence was taken in, and nothing else happened. -/
structure TakesIn (matcher later : Matcher) (map : Correspondence) : Prop where
  named : map.id = matcher.nextMap
  next : later.nextMap = matcher.nextMap.next
  limit : later.maxChecks = matcher.maxChecks
  checks : later.checks = matcher.checks
  found : ∀ query, later.get? query =
    if query = matcher.nextMap then some map else matcher.get? query
  listed : ∀ pair query, query ∈ later.registered pair ↔
    query ∈ matcher.registered pair ∨ (query = matcher.nextMap ∧ pair ∈ map.pairs)

theorem takesIn_allocate (matcher : Matcher) (map : Correspondence) :
    matcher.TakesIn (matcher.allocate map).2 (matcher.taken map) where
  named := rfl
  next := rfl
  limit := rfl
  checks := rfl
  found := matcher.get?_allocate map
  listed := fun _ _ => mem_registered_allocate

theorem TakesIn.update {matcher later : Matcher} {map : Correspondence}
    (takes : matcher.TakesIn later map) {change : Correspondence → Correspondence}
    (named : (change map).id = map.id) (pairs : (change map).nodeOf = map.nodeOf) :
    matcher.TakesIn (later.update matcher.nextMap change) (change map) where
  named := named.trans takes.named
  next := takes.next
  limit := takes.limit
  checks := takes.checks
  found := by
    intro query
    rw [get?_update, takes.found]
    split
    · rfl
    · rfl
  listed := by
    have same : (change map).pairs = map.pairs := by
      unfold Correspondence.pairs
      rw [pairs]
    intro pair query
    rw [same]
    exact takes.listed pair query

/-- Identifiers are not given out twice, correspondences are regular, and those that the registry
names at a pair are there and need the pair. -/
structure Tracked (matcher : Matcher) (catalog : Catalog) (law : Law) : Prop where
  issued : ∀ id map, matcher.get? id = some map → id.toNat < matcher.nextMap.toNat
  maps : ∀ id map, matcher.get? id = some map → map.Regular catalog law
  registry : ∀ pair id, id ∈ matcher.registered pair →
    ∃ map, matcher.get? id = some map ∧ map.Names catalog pair

variable {matcher later : Matcher} {catalog : Catalog} {law : Law}

theorem tracked_empty (maxChecks : Nat) (catalog : Catalog) (law : Law) :
    (empty maxChecks).Tracked catalog law := by
  have nothing : ∀ id, (empty maxChecks).get? id = none := fun _ => rfl
  refine ⟨by simp [nothing], by simp [nothing], fun pair id member => ?_⟩
  simp [empty, registered] at member

theorem Tracked.of_maps (tracked : matcher.Tracked catalog law)
    (maps : later.maps = matcher.maps) (registry : later.registry = matcher.registry)
    (next : later.nextMap = matcher.nextMap) : later.Tracked catalog law := by
  obtain ⟨otherMaps, nextMap, otherRegistry, checked, checks, maxChecks⟩ := later
  obtain rfl : otherMaps = matcher.maps := maps
  obtain rfl : otherRegistry = matcher.registry := registry
  obtain rfl : nextMap = matcher.nextMap := next
  exact ⟨tracked.issued, tracked.maps, tracked.registry⟩

theorem Tracked.fresh (tracked : matcher.Tracked catalog law) :
    matcher.get? matcher.nextMap = none := by
  cases found : matcher.get? matcher.nextMap with
  | none => rfl
  | some map =>
    have below := tracked.issued _ map found
    omega

/-- What counts as seeded has a seed. -/
theorem Tracked.seeded_of_isSeeded (tracked : matcher.Tracked catalog law) {pair : Pair}
    (seeded : matcher.isSeeded pair = true) : matcher.Seeded pair := by
  unfold isSeeded at seeded
  obtain ⟨id, listed, single⟩ := List.any_eq_true.1 seeded
  obtain ⟨map, found, held, -⟩ := tracked.registry pair id (Std.ExtTreeSet.mem_toList.1 listed)
  simp only [found, Bool.and_eq_true, beq_iff_eq] at single
  exact ⟨id, map, found, single.1, Std.ExtTreeSet.mem_iff_contains.2 single.2, held⟩

/-- Changes that keep correspondences regular keep the books in order. -/
theorem Tracked.update (tracked : matcher.Tracked catalog law) {id : MapId}
    {change : Correspondence → Correspondence}
    (grows : ∀ map : Correspondence, map.Grows (change map))
    (regular : ∀ map, matcher.get? id = some map → (change map).Regular catalog law) :
    (matcher.update id change).Tracked catalog law := by
  refine ⟨fun query after found => ?_, fun query after found => ?_, fun pair query member => ?_⟩
  · rw [get?_update] at found
    split at found
    · obtain ⟨map, before, -⟩ := Option.map_eq_some_iff.1 found
      exact tracked.issued query map before
    · exact tracked.issued query after found
  · rw [get?_update] at found
    split at found
    · rename_i same
      obtain ⟨map, before, rfl⟩ := Option.map_eq_some_iff.1 found
      exact regular map (same ▸ before)
    · exact tracked.maps query after found
  · obtain ⟨map, found, names⟩ := tracked.registry pair query member
    rw [get?_update, found]
    split
    · exact ⟨change map, rfl, names.grow (grows map)⟩
    · exact ⟨map, rfl, names⟩

theorem Tracked.takeIn (tracked : matcher.Tracked catalog law) {map : Correspondence}
    (takes : matcher.TakesIn later map) (regular : map.Regular catalog law)
    (names : ∀ pair ∈ map.pairs, map.Names catalog pair)
    (room : matcher.nextMap.toNat + 1 < UInt64.size) : later.Tracked catalog law := by
  have next : later.nextMap.toNat = matcher.nextMap.toNat + 1 := by
    rw [takes.next]
    exact toNat_next room
  refine ⟨fun query after found => ?_, fun query after found => ?_, fun pair query member => ?_⟩
  · rw [takes.found] at found
    rw [next]
    split at found
    · rename_i same
      rw [same]
      exact Nat.lt_succ_self _
    · exact Nat.lt_succ_of_lt (tracked.issued query after found)
  · rw [takes.found] at found
    split at found
    · obtain rfl := Option.some.inj found
      exact regular
    · exact tracked.maps query after found
  · rcases (takes.listed pair query).1 member with old | ⟨rfl, listed⟩
    · obtain ⟨before, found, needed⟩ := tracked.registry pair query old
      have different : query ≠ matcher.nextMap := by
        intro same
        rw [same, tracked.fresh] at found
        simp at found
      exact ⟨before, by rw [takes.found, if_neg different, found], needed⟩
    · exact ⟨map, by rw [takes.found, if_pos rfl], names pair listed⟩

end Matcher

namespace PassState

/-- The books of a pass are in order, and there are identifiers left for what the checks that are
left may bring. -/
structure Tracked (state : PassState) (catalog : Catalog) (law : Law) : Prop where
  grounded : state.Grounded catalog
  matcher : state.matcher.Tracked catalog law
  spent : state.matcher.nextMap.toNat ≤ state.matcher.checks
  room : state.matcher.checks ≤ state.matcher.maxChecks ∧ state.matcher.maxChecks < UInt64.size

/-- What moves lead to. -/
structure Grows (catalog : Catalog) (law : Law) (fresh : Pair → Prop) (state later : PassState) :
    Prop where
  tracked : later.Tracked catalog law
  wider : state.relation.Extends later.relation
  limit : later.matcher.maxChecks = state.matcher.maxChecks
  checks : state.matcher.checks ≤ later.matcher.checks
  kept : ∀ id map, state.matcher.get? id = some map →
    ∃ after, later.matcher.get? id = some after ∧ map.Ripens after
  origin : ∀ id after, later.matcher.get? id = some after → after.deepPredicates.size = 1 →
    (∃ map, state.matcher.get? id = some map ∧ map.Ripens after) ∨
      ∃ pair, fresh pair ∧ after.SeededAt pair

variable {catalog : Catalog} {law : Law} {fresh : Pair → Prop} {state later : PassState}

theorem Tracked.grows_refl (tracked : state.Tracked catalog law) (fresh : Pair → Prop) :
    Grows catalog law fresh state state where
  tracked := tracked
  wider := state.relation.extends_refl
  limit := rfl
  checks := Nat.le_refl _
  kept := fun _ map found => ⟨map, found, map.ripens_refl⟩
  origin := fun _ after found _ => Or.inl ⟨after, found, after.ripens_refl⟩

theorem Grows.trans {first second third : PassState} (earlier : Grows catalog law fresh first second)
    (later : Grows catalog law fresh second third) : Grows catalog law fresh first third where
  tracked := later.tracked
  wider := earlier.wider.trans later.wider
  limit := later.limit.trans earlier.limit
  checks := Nat.le_trans earlier.checks later.checks
  kept := by
    intro id map found
    obtain ⟨middle, foundMiddle, ripens⟩ := earlier.kept id map found
    obtain ⟨after, foundAfter, further⟩ := later.kept id middle foundMiddle
    exact ⟨after, foundAfter, ripens.trans further⟩
  origin := by
    intro id after found single
    rcases later.origin id after found single with ⟨middle, foundMiddle, ripens⟩ | seeded
    · rw [ripens.deepPredicates] at single
      rcases earlier.origin id middle foundMiddle single with
        ⟨map, foundMap, before⟩ | ⟨pair, allowed, seeded⟩
      · exact Or.inl ⟨map, foundMap, before.trans ripens⟩
      · exact Or.inr ⟨pair, allowed, seeded.grow ripens.toGrows⟩
    · exact Or.inr seeded

/-- Only checks are spent. -/
theorem Tracked.grows_spend (tracked : state.Tracked catalog law) {spent : Matcher}
    (paid : state.matcher.spend? = some spent) (fresh : Pair → Prop) :
    Grows catalog law fresh state { state with matcher := spent } := by
  obtain ⟨within, rfl⟩ := Matcher.spend?_eq_some paid
  have used := tracked.spent
  obtain ⟨limited, small⟩ := tracked.room
  refine ⟨⟨Matcher.Grounded.spend tracked.grounded paid, tracked.matcher.of_maps rfl rfl rfl, ?_, ?_,
    small⟩, state.relation.extends_refl, rfl, Nat.le_succ _,
    fun _ map found => ⟨map, found, map.ripens_refl⟩,
    fun _ after found _ => Or.inl ⟨after, found, after.ripens_refl⟩⟩
  · exact Nat.le_succ_of_le used
  · exact within

/-! ## New correspondences -/

theorem takesIn_satisfyAt (context : PassContext) {matcher : Matcher} {map : Correspondence}
    (takes : matcher.TakesIn state.matcher map) (open_ : map.satisfied = false) :
    matcher.TakesIn (state.satisfyAt context matcher.nextMap).matcher
      { map with satisfied := true, tentative := context.tentative } := by
  have found : state.matcher.get? matcher.nextMap = some map := by
    rw [takes.found, if_pos rfl]
  have updated : matcher.TakesIn (state.matcher.update matcher.nextMap fun map =>
      { map with satisfied := true, tentative := context.tentative })
      { map with satisfied := true, tentative := context.tentative } := takes.update rfl rfl
  rw [← takes.named] at updated
  unfold satisfyAt markSatisfied
  simp only [found, open_, Bool.false_eq_true, ↓reduceIte]
  exact updated

/-- Spending a check on a new correspondence. -/
theorem Tracked.grows_takeIn (tracked : state.Tracked catalog law) {spent : Matcher}
    (paid : state.matcher.spend? = some spent) {map : Correspondence}
    (takes : spent.TakesIn later.matcher map) (relation : later.relation = state.relation)
    (grounded : later.Grounded catalog) (regular : map.Regular catalog law)
    (names : ∀ pair ∈ map.pairs, map.Names catalog pair)
    (new : map.deepPredicates.size = 1 → ∃ pair, fresh pair ∧ map.SeededAt pair) :
    Grows catalog law fresh state later := by
  have books := (tracked.grows_spend paid fresh).tracked.matcher
  obtain ⟨within, rfl⟩ := Matcher.spend?_eq_some paid
  obtain ⟨limited, small⟩ := tracked.room
  have used := tracked.spent
  have space : state.matcher.nextMap.toNat + 1 < UInt64.size := by omega
  have found : ∀ query, later.matcher.get? query =
      if query = state.matcher.nextMap then some map else state.matcher.get? query := takes.found
  have next : later.matcher.nextMap.toNat = state.matcher.nextMap.toNat + 1 := by
    rw [takes.next]
    exact Matcher.toNat_next space
  have checks : later.matcher.checks = state.matcher.checks + 1 := takes.checks
  have limit : later.matcher.maxChecks = state.matcher.maxChecks := takes.limit
  refine ⟨⟨grounded, books.takeIn takes regular names space, by omega, by omega, by omega⟩, ?_,
    limit, by omega, fun id before held => ?_, fun id after held size => ?_⟩
  · rw [relation]
    exact state.relation.extends_refl
  · have different : id ≠ state.matcher.nextMap := by
      intro same
      rw [same, tracked.matcher.fresh] at held
      simp at held
    rw [found, if_neg different]
    exact ⟨before, held, before.ripens_refl⟩
  · rw [found] at held
    split at held
    · obtain rfl := Option.some.inj held
      exact Or.inr (new size)
    · exact Or.inl ⟨after, held, after.ripens_refl⟩

/-- A new correspondence is slim, and it is marked satisfied at once if it has all deep predicates.
-/
theorem Tracked.grows_settle (tracked : state.Tracked catalog law) {context : PassContext}
    {spent taken : Matcher} {map : Correspondence} (paid : state.matcher.spend? = some spent)
    (takes : spent.TakesIn taken map) (open_ : map.satisfied = false) (paired : map.Paired)
    (slim : map.Slim catalog) (built : ∃ deep, deep ∈ map.deepPredicates) (fills : Prop)
    [Decidable fills] (filled : map.law = law.id →
      (fills ↔ ∀ deep ∈ law.deepPredicates, deep ∈ map.deepPredicates))
    (new : map.deepPredicates.size = 1 → ∃ pair, fresh pair ∧ map.SeededAt pair)
    (grounded : (if fills then satisfyAt context { state with matcher := taken } spent.nextMap
      else { state with matcher := taken }).Grounded catalog) :
    Grows catalog law fresh state
      (if fills then satisfyAt context { state with matcher := taken } spent.nextMap
      else { state with matcher := taken }) := by
  have names : ∀ pair ∈ map.pairs, map.Names catalog pair := by
    intro pair listed
    have held := (paired _ _).1 (Correspondence.mem_pairs.1 listed)
    exact ⟨held, slim pair.node pair.entity held⟩
  split at grounded
  · rename_i holds
    rw [if_pos holds]
    apply tracked.grows_takeIn paid (takesIn_satisfyAt context takes open_)
    · exact relation_satisfyAt context _ _
    · exact grounded
    · exact ⟨built, by simp, fun named => by simpa using (filled named).1 holds⟩
    · exact names
    · intro size
      obtain ⟨pair, allowed, seeded⟩ := new size
      exact ⟨pair, allowed, seeded.single, seeded.member, seeded.held⟩
  · rename_i fails
    rw [if_neg fails]
    refine tracked.grows_takeIn paid takes rfl grounded ⟨built, fun _ => slim, fun named => ?_⟩ names
      new
    rw [← filled named, open_]
    simp [fails]

/-! ## Moves -/

variable {context : PassContext}

/-- A correspondence is changed, and the relation added to. -/
theorem Tracked.grows_update (tracked : state.Tracked catalog law) {id : MapId}
    {change : Correspondence → Correspondence}
    (updated : later.matcher = state.matcher.update id change)
    (stays : ∀ map : Correspondence, map.Stays (change map))
    (open_ : ∀ map, state.matcher.get? id = some map → map.satisfied = false →
      (change map).entityOf = map.entityOf)
    (wider : state.relation.Extends later.relation) (grounded : later.Grounded catalog)
    (fresh : Pair → Prop) : Grows catalog law fresh state later := by
  have found : ∀ query, later.matcher.get? query = if query = id then
      (state.matcher.get? query).map change else state.matcher.get? query := by
    intro query
    rw [updated, Matcher.get?_update]
  have books : later.matcher.Tracked catalog law := by
    rw [updated]
    refine tracked.matcher.update (fun map => (stays map).toGrows) fun map held => ?_
    exact (tracked.matcher.maps id map held).grow (stays map).toGrows (stays map).satisfied
      (open_ map held)
  refine ⟨⟨grounded, books, ?_, ?_⟩, wider, ?_, ?_, fun query map held => ?_,
    fun query after held _ => Or.inl ?_⟩
  · rw [updated]
    exact tracked.spent
  · rw [updated]
    exact tracked.room
  · rw [updated]
    rfl
  · rw [updated]
    exact Nat.le_refl _
  · rw [found, held]
    split
    · exact ⟨change map, rfl, (stays map).toGrows, fun satisfied =>
        (stays map).satisfied.trans satisfied⟩
    · exact ⟨map, rfl, map.ripens_refl⟩
  · rw [found] at held
    split at held
    · obtain ⟨map, before, rfl⟩ := Option.map_eq_some_iff.1 held
      exact ⟨map, before, (stays map).toGrows, fun satisfied =>
        (stays map).satisfied.trans satisfied⟩
    · exact ⟨after, held, after.ripens_refl⟩

/-- Only the relation is added to. -/
theorem Tracked.grows_widen (tracked : state.Tracked catalog law)
    (same : later.matcher = state.matcher) (wider : state.relation.Extends later.relation)
    (grounded : later.Grounded catalog) (fresh : Pair → Prop) :
    Grows catalog law fresh state later := by
  obtain ⟨matcher, relation, outcome⟩ := later
  obtain rfl : matcher = state.matcher := same
  exact ⟨⟨grounded, tracked.matcher, tracked.spent, tracked.room⟩, wider, rfl, Nat.le_refl _,
    fun _ map found => ⟨map, found, map.ripens_refl⟩,
    fun _ after found _ => Or.inl ⟨after, found, after.ripens_refl⟩⟩

/-- A move leaves the books in order. -/
theorem Move.grows (move : Move context fresh state later) (valid : context.catalog.Valid)
    (listed : law ∈ context.catalog.laws) (single : law.predicateSets.length = 1)
    (tracked : state.Tracked context.catalog law) :
    Grows context.catalog law fresh state later := by
  have grounded := move.grounded valid tracked.grounded
  cases move with
  | check paid => exact tracked.grows_spend paid fresh
  | @seed spent lawId pair plan paid place allowed planned =>
    have sown := Correspondence.grounded_ofPlan
      (isPredicate_of_mem_seedPlaces valid place) planned
    have slim := Correspondence.slim_ofPlan planned
    have seeded := Correspondence.seededAt_ofPlan planned
    apply tracked.grows_settle paid (spent.takesIn_allocate _)
    · exact Correspondence.satisfied_ofPlan lawId pair.node plan
    · exact sown.paired
    · exact slim
    · exact ⟨pair.node, seeded.member⟩
    · exact fun named => Correspondence.fills_iff valid listed single named sown slim
    · exact fun _ => ⟨pair, allowed, seeded.single, seeded.member, seeded.held⟩
    · exact grounded
  | @unite spent _ _ left right merged fills paid foundLeft foundRight united =>
    have unites := Matcher.union?_eq_some.1 united
    have before := Matcher.Grounded.spend tracked.grounded paid
    have groundedLeft := before.maps _ left foundLeft
    have groundedRight := before.maps _ right foundRight
    have books : spent.Tracked context.catalog law := (tracked.grows_spend paid fresh).tracked.matcher
    have regularLeft := books.maps _ left foundLeft
    have regularRight := books.maps _ right foundRight
    have slimLeft := regularLeft.slim unites.openLeft
    have slimRight := regularRight.slim unites.openRight
    have several := Correspondence.several_union unites regularLeft.built regularRight.built
    have slim := Correspondence.slim_union unites slimLeft slimRight groundedLeft.paired
      groundedRight.paired
    apply tracked.grows_settle paid ((spent.takesIn_allocate merged).update rfl rfl)
    · exact unites.satisfied_merged
    · exact unites.paired_merged
    · exact slim
    · obtain ⟨deep, built⟩ := regularLeft.built
      exact ⟨deep, unites.mem_deepPredicates.2 (Or.inl built)⟩
    · intro named
      have namedLeft : left.law = law.id := unites.law_merged.symm.trans named
      have filled := (Correspondence.jointCoverage_iff valid listed single namedLeft
        (unites.law.trans namedLeft) groundedLeft groundedRight slimLeft slimRight).2
      rw [unites.exact, beq_iff_eq, filled]
      exact forall₂_congr fun deep _ => unites.mem_deepPredicates.symm
    · exact fun size => (several size).elim
    · exact grounded
  | branch id node settled =>
    obtain ⟨wider, same | ⟨map, pairs, formulas, found, adopted⟩⟩ :=
      state.appendBranch_cases context id node
    · exact tracked.grows_widen same wider grounded fresh
    · apply tracked.grows_update adopted
      · exact fun map => map.stays_adopt pairs formulas
      · intro before held unsatisfied
        have named := tracked.grounded.named id map found
        rw [named, found] at held
        obtain rfl := Option.some.inj held
        exact absurd ((settled map found named).symm.trans unsatisfied) (by simp)
      · exact wider
      · exact grounded
  | conclude id conclusions =>
    apply tracked.grows_update rfl
    · exact fun map => ⟨⟨rfl, rfl, rfl, fun _ _ holds => holds, fun paired => paired⟩, rfl, rfl⟩
    · exact fun _ _ _ => rfl
    · exact state.relation.extends_refl
    · exact grounded

theorem Run.grows (run : Run context fresh state later) (valid : context.catalog.Valid)
    (listed : law ∈ context.catalog.laws) (single : law.predicateSets.length = 1)
    (tracked : state.Tracked context.catalog law) :
    Grows context.catalog law fresh state later := by
  induction run with
  | refl => exact tracked.grows_refl fresh
  | step move _ ih =>
    have head := move.grows valid listed single tracked
    exact head.trans (ih head.tracked)

end PassState

end ConceptLaws
