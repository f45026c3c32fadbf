import ConceptLaws.Proofs.Correspondence.Assignments
import ConceptLaws.Proofs.Correspondence.Growth

/-! Seeds of an assignment.
A correspondence that was built from all deep predicates of an assignment has found it. Of a law with
two deep predicates an assignment has two seeds, which can be united unless there is a correspondence
with both of their pairs already, and that one has found the assignment. With three deep predicates
such a correspondence may have a third pair that is not in the assignment. -/

namespace ConceptLaws

/-- A satisfied correspondence of the law has the assignment. -/
def Matcher.Finds (matcher : Matcher) (law : Law) (place : LawNodeId → EntityId) : Prop :=
  ∃ id map, matcher.get? id = some map ∧ map.law = law.id ∧ map.satisfied = true ∧
    ∀ node, law.isPredicate node = true → map.entityOf[node]? = some (place node)

/-- There is a seed for every deep predicate of the assignment. -/
def Matcher.Sown (matcher : Matcher) (law : Law) (place : LawNodeId → EntityId) : Prop :=
  ∀ deep ∈ law.deepPredicates, matcher.Seeded (placed place deep)

/-- Two correspondences are the seeds of an assignment of a law with two deep predicates. -/
structure Matcher.Halves (matcher : Matcher) (law : Law) (place : LawNodeId → EntityId)
    (left right : MapId) (first second : LawNodeId) : Prop where
  firstDeep : first ∈ law.deepPredicates
  secondDeep : second ∈ law.deepPredicates
  different : first ≠ second
  all : ∀ deep ∈ law.deepPredicates, deep = first ∨ deep = second
  left : ∃ map, matcher.get? left = some map ∧ map.SeededAt (placed place first)
  right : ∃ map, matcher.get? right = some map ∧ map.SeededAt (placed place second)

/-- A seed maps its pair. -/
theorem Correspondence.SeededAt.mem_predicatePairs {map : Correspondence} {pair : Pair}
    {catalog : Catalog} {relation : Relation} (seeded : map.SeededAt pair)
    (grounded : map.Grounded catalog relation) : pair ∈ map.predicatePairs catalog :=
  List.mem_filter.2 ⟨mem_pairs.2 ((grounded.paired _ _).2 seeded.held),
    grounded.rooted pair.node seeded.member⟩

namespace PassState

variable {catalog : Catalog} {law : Law} {place : LawNodeId → EntityId} {fresh : Pair → Prop}
  {state later : PassState}

theorem Grows.finds (grows : Grows catalog law fresh state later)
    (finds : state.matcher.Finds law place) : later.matcher.Finds law place := by
  obtain ⟨id, map, found, named, satisfied, holds⟩ := finds
  obtain ⟨after, foundAfter, ripens⟩ := grows.kept id map found
  exact ⟨id, after, foundAfter, ripens.law.trans named, ripens.satisfied satisfied,
    fun node predicate => ripens.kept node _ (holds node predicate)⟩

theorem Grows.seeded (grows : Grows catalog law fresh state later) {pair : Pair}
    (seeded : state.matcher.Seeded pair) : later.matcher.Seeded pair := by
  obtain ⟨id, map, found, at_⟩ := seeded
  obtain ⟨after, foundAfter, ripens⟩ := grows.kept id map found
  exact ⟨id, after, foundAfter, at_.grow ripens.toGrows⟩

theorem Grows.halves (grows : Grows catalog law fresh state later) {left right : MapId}
    {first second : LawNodeId} (halves : state.matcher.Halves law place left right first second) :
    later.matcher.Halves law place left right first second := by
  obtain ⟨leftMap, foundLeft, seededLeft⟩ := halves.left
  obtain ⟨rightMap, foundRight, seededRight⟩ := halves.right
  obtain ⟨leftLater, keptLeft, ripensLeft⟩ := grows.kept left leftMap foundLeft
  obtain ⟨rightLater, keptRight, ripensRight⟩ := grows.kept right rightMap foundRight
  exact { halves with
    left := ⟨leftLater, keptLeft, seededLeft.grow ripensLeft.toGrows⟩
    right := ⟨rightLater, keptRight, seededRight.grow ripensRight.toGrows⟩ }

/-- A seed was there before, or it is where the moves may sow. -/
theorem Grows.seeded_origin (grows : Grows catalog law fresh state later)
    (tracked : state.Tracked catalog law) {pair : Pair} (seeded : later.matcher.Seeded pair) :
    state.matcher.Seeded pair ∨ fresh pair := by
  obtain ⟨id, after, found, at_⟩ := seeded
  rcases grows.origin id after found at_.single with ⟨map, before, ripens⟩ | ⟨other, allowed, new⟩
  · refine Or.inl ⟨id, map, before, ?_⟩
    have single := ripens.deepPredicates ▸ at_.single
    have member := ripens.deepPredicates ▸ at_.member
    obtain ⟨_, spot, _, _, -, holds, -⟩ :=
      (tracked.grounded.maps id map before).fits pair.node member pair.node .self
    have same := (ripens.kept _ _ holds).symm.trans at_.held
    exact ⟨single, member, holds.trans same⟩
  · have node := Correspondence.eq_of_size_eq_one at_.single at_.member new.member
    have entity := at_.held
    rw [node, new.held] at entity
    obtain ⟨spot, id⟩ := pair
    obtain rfl : id = other.node := node
    obtain rfl : other.entity = spot := Option.some.inj entity
    exact Or.inr allowed

variable (valid : catalog.Valid) (plain : catalog.Asymmetric) (listed : law ∈ catalog.laws)

include valid plain listed

/-- A correspondence that has the assignment at all deep predicates is satisfied, and has it
everywhere. -/
theorem Tracked.finds_of_anchored (tracked : state.Tracked catalog law)
    (places : law.Places catalog state.relation place) {id : MapId} {map : Correspondence}
    (found : state.matcher.get? id = some map) (named : map.law = law.id)
    (anchored : ∀ deep ∈ law.deepPredicates,
      deep ∈ map.deepPredicates ∧ map.entityOf[deep]? = some (place deep)) :
    state.matcher.Finds law place := by
  have regular := tracked.matcher.maps id map found
  refine ⟨id, map, found, named, (regular.settled named).2 fun deep lowest =>
    (anchored deep lowest).1, fun node predicate => ?_⟩
  obtain ⟨deep, lowest, needs⟩ := valid.exists_deep listed predicate
  obtain ⟨built, holds⟩ := anchored deep lowest
  exact places.entityOf_of_needs valid plain listed (tracked.grounded.maps id map found) named built
    holds needs

omit plain in
/-- What the registry names at a deep predicate of the law is a correspondence of the law that was
built from it. -/
theorem Tracked.registered_deep (tracked : state.Tracked catalog law) {deep : LawNodeId}
    (lowest : deep ∈ law.deepPredicates) {spot : EntityId} {id : MapId}
    (member : id ∈ state.matcher.registered ⟨spot, deep⟩) : ∃ map,
      state.matcher.get? id = some map ∧ map.law = law.id ∧ deep ∈ map.deepPredicates ∧
        map.entityOf[deep]? = some spot := by
  obtain ⟨map, found, holds, other, built, needs⟩ := tracked.matcher.registry _ id member
  have rooted := (tracked.grounded.maps id map found).rooted other built
  have predicate : catalog.isPredicate law.id deep = true :=
    (valid.isPredicate_eq listed deep).trans (Law.mem_deepPredicates.1 lowest).1
  have named : map.law = law.id :=
    valid.law_eq_of_isPredicate (valid.isPredicate_of_needs rooted needs) predicate
  rw [named] at rooted needs
  obtain rfl := valid.eq_of_needs_deep listed rooted lowest needs
  exact ⟨map, found, named, built, holds⟩

/-- A correspondence that is registered at all deep predicates of an assignment has found it. -/
theorem Tracked.finds_of_registered (tracked : state.Tracked catalog law)
    (single : law.predicateSets.length = 1)
    (places : law.Places catalog state.relation place) {id : MapId}
    (registered : ∀ deep ∈ law.deepPredicates,
      id ∈ state.matcher.registered (placed place deep)) : state.matcher.Finds law place := by
  obtain ⟨first, lowest⟩ := valid.exists_deepPredicate listed single
  obtain ⟨map, found, named, -⟩ :=
    tracked.registered_deep valid listed lowest (registered first lowest)
  refine tracked.finds_of_anchored valid plain listed places found named fun deep lowest => ?_
  obtain ⟨other, foundToo, -, built, holds⟩ :=
    tracked.registered_deep valid listed lowest (registered deep lowest)
  obtain rfl := Option.some.inj (found.symm.trans foundToo)
  exact ⟨built, holds⟩

/-! ## Two seeds -/

omit plain in
theorem Tracked.law_of_seed (tracked : state.Tracked catalog law) {id : MapId}
    {map : Correspondence} (found : state.matcher.get? id = some map) {deep : LawNodeId}
    (lowest : deep ∈ law.deepPredicates) (seeded : map.SeededAt (placed place deep)) :
    map.law = law.id := by
  have rooted := (tracked.grounded.maps id map found).rooted deep seeded.member
  have predicate : catalog.isPredicate law.id deep = true :=
    (valid.isPredicate_eq listed deep).trans (Law.mem_deepPredicates.1 lowest).1
  exact valid.law_eq_of_isPredicate rooted predicate

omit plain in
/-- A seed is open while there is another deep predicate. -/
theorem Tracked.open_seed (tracked : state.Tracked catalog law) {id : MapId}
    {map : Correspondence} (found : state.matcher.get? id = some map) {deep other : LawNodeId}
    (lowest : deep ∈ law.deepPredicates) (further : other ∈ law.deepPredicates)
    (different : other ≠ deep) (seeded : map.SeededAt (placed place deep)) :
    map.satisfied = false := by
  have named := tracked.law_of_seed valid listed found lowest seeded
  have settled := (tracked.matcher.maps id map found).settled named
  rw [← Bool.not_eq_true, settled]
  intro all
  exact different (seeded.node_eq (all other further))

/-- All predicates of a seed of an assignment are where the assignment has them. -/
theorem Tracked.follows_seed (tracked : state.Tracked catalog law)
    (places : law.Places catalog state.relation place) {id : MapId} {map : Correspondence}
    (found : state.matcher.get? id = some map) {deep : LawNodeId}
    (lowest : deep ∈ law.deepPredicates) (seeded : map.SeededAt (placed place deep))
    (open_ : map.satisfied = false) :
    PairPlan.Follows (map.predicatePairs catalog) law place := by
  intro pair member
  have named := tracked.law_of_seed valid listed found lowest seeded
  have grounded := tracked.grounded.maps id map found
  have slim := (tracked.matcher.maps id map found).slim open_
  obtain ⟨other, built, needs⟩ := slim.needed grounded.paired member
  obtain rfl : other = deep := seeded.node_eq built
  obtain ⟨inside, predicate⟩ := List.mem_filter.1 member
  rw [named] at needs predicate
  have holds := places.entityOf_of_needs valid plain listed grounded named built seeded.held needs
  have same := (grounded.paired _ _).1 (Correspondence.mem_pairs.1 inside)
  exact ⟨(valid.isPredicate_eq listed pair.node).symm.trans predicate,
    Option.some.inj (same.symm.trans holds)⟩

/-- The two seeds of an assignment with two deep predicates are united, unless there is a
correspondence with both of their pairs. -/
theorem Tracked.unites_halves (tracked : state.Tracked catalog law)
    (single : law.predicateSets.length = 1) (places : law.Places catalog state.relation place)
    {leftId rightId : MapId} {first second : LawNodeId}
    (halves : state.matcher.Halves law place leftId rightId first second)
    {left right : Correspondence} (foundLeft : state.matcher.get? leftId = some left)
    (foundRight : state.matcher.get? rightId = some right)
    (uncovered : state.matcher.covering [placed place first, placed place second] = []) :
    ∃ merged, state.matcher.Unites catalog left right merged true := by
  obtain ⟨inFirst, inSecond, different, all, ⟨_, foundToo, seededLeft⟩, ⟨_, found, seededRight⟩⟩ :=
    halves
  obtain rfl := Option.some.inj (foundLeft.symm.trans foundToo)
  obtain rfl := Option.some.inj (foundRight.symm.trans found)
  have namedLeft := tracked.law_of_seed valid listed foundLeft inFirst seededLeft
  have namedRight := tracked.law_of_seed valid listed foundRight inSecond seededRight
  have openLeft :=
    tracked.open_seed valid listed foundLeft inFirst inSecond different.symm seededLeft
  have openRight := tracked.open_seed valid listed foundRight inSecond inFirst different seededRight
  have followsLeft := tracked.follows_seed valid plain listed places foundLeft inFirst seededLeft
    openLeft
  have followsRight := tracked.follows_seed valid plain listed places foundRight inSecond seededRight
    openRight
  have follows : PairPlan.Follows
      (left.predicatePairs catalog ++ right.predicatePairs catalog) law place := by
    intro pair member
    rcases List.mem_append.1 member with inLeft | inRight
    · exact followsLeft pair inLeft
    · exact followsRight pair inRight
  obtain ⟨base, recorded⟩ := places.exists_recordAll follows
    (Correspondence.paired_empty left.law) (by simp [Correspondence.empty])
  obtain ⟨inside, exact⟩ := Correspondence.jointCoverage_iff valid listed single namedLeft namedRight
    (tracked.grounded.maps _ left foundLeft) (tracked.grounded.maps _ right foundRight)
    ((tracked.matcher.maps _ left foundLeft).slim openLeft)
    ((tracked.matcher.maps _ right foundRight).slim openRight)
  have filled : Correspondence.jointCoverage catalog left right = .exact := by
    refine exact.2 fun deep lowest => ?_
    rcases all deep lowest with rfl | rfl
    · exact Or.inl seededLeft.member
    · exact Or.inr seededRight.member
  refine ⟨_, namedRight.trans namedLeft.symm, openLeft, openRight, fun node inLeft inRight => ?_,
    ⟨_, _, seededLeft.deepPairs?, seededRight.deepPairs?, uncovered⟩, inside, by simp [filled],
    base, recorded, rfl⟩
  exact different ((seededLeft.node_eq inLeft).symm.trans (seededRight.node_eq inRight))

/-- A union of two seeds of an assignment has found it as soon as it is taken in. -/
theorem Tracked.finds_of_takesIn (tracked : later.Tracked catalog law)
    (places : law.Places catalog later.relation place) (before : state.Tracked catalog law)
    {leftId rightId : MapId} {first second : LawNodeId}
    (halves : state.matcher.Halves law place leftId rightId first second)
    {left right merged map : Correspondence} {fills : Bool}
    (foundLeft : state.matcher.get? leftId = some left)
    (foundRight : state.matcher.get? rightId = some right)
    (unites : state.matcher.Unites catalog left right merged fills)
    (takes : state.matcher.TakesIn later.matcher map) (law_ : map.law = merged.law)
    (built : map.deepPredicates = merged.deepPredicates)
    (mapped : map.entityOf = merged.entityOf) : later.matcher.Finds law place := by
  obtain ⟨inFirst, -, -, all, ⟨_, foundToo, seededLeft⟩, ⟨_, found, seededRight⟩⟩ := halves
  obtain rfl := Option.some.inj (foundLeft.symm.trans foundToo)
  obtain rfl := Option.some.inj (foundRight.symm.trans found)
  have taken : later.matcher.get? state.matcher.nextMap = some map := by
    rw [takes.found, if_pos rfl]
  have named : map.law = law.id := by
    rw [law_, unites.law_merged]
    exact before.law_of_seed valid listed foundLeft inFirst seededLeft
  apply tracked.finds_of_anchored valid plain listed places taken named
  intro deep lowest
  rw [built, mapped, unites.mem_deepPredicates]
  rcases all deep lowest with rfl | rfl
  · have inLeft := seededLeft.mem_predicatePairs (before.grounded.maps _ left foundLeft)
    exact ⟨Or.inl seededLeft.member, unites.entityOf_merged (List.mem_append_left _ inLeft)⟩
  · have inRight := seededRight.mem_predicatePairs (before.grounded.maps _ right foundRight)
    exact ⟨Or.inr seededRight.member, unites.entityOf_merged (List.mem_append_right _ inRight)⟩

end PassState

end ConceptLaws
