import ConceptLaws.Proofs.Correspondence.Acts
import ConceptLaws.Proofs.Correspondence.Completeness

/-! No match is built twice.
The registry names a correspondence at every pair that it had when it was made. So where its deep
predicates are among these pairs, the tests before a seed is sown and before two correspondences are
united find it, and nothing is built from the same pairs again. A seed always has its own pair; of
the rest a union keeps only predicates of the law. -/

namespace ConceptLaws

namespace Correspondence

/-- The correspondence was built from a single pair, or from predicates of its law. -/
def Indexed (map : Correspondence) (catalog : Catalog) : Prop :=
  map.deepPredicates.size = 1 ∨
    ∀ node ∈ map.deepPredicates, catalog.isPredicate map.law node = true

/-- All that it was built from is mapped. -/
def Anchored (map : Correspondence) : Prop :=
  ∀ node ∈ map.deepPredicates, ∃ entity, map.entityOf[node]? = some entity

theorem mapM_eq_some {α β : Type} {read : α → Option β} {items : List α} {results : List β} :
    items.mapM read = some results ↔ items.map read = results.map some := by
  induction items generalizing results with
  | nil =>
    cases results with
    | nil => simp
    | cons result others => simp
  | cons first rest ih =>
    rw [List.mapM_cons, List.map_cons]
    cases results with
    | nil => simp [Option.bind_eq_some_iff]
    | cons result others => simp [Option.bind_eq_some_iff, ih]

theorem mem_of_deepPairs? {map : Correspondence} {pairs : List Pair}
    (told : map.deepPairs? = some pairs) {pair : Pair} : pair ∈ pairs ↔ map.BuiltAt pair := by
  have listed := mapM_eq_some.1 told
  have member : pair ∈ pairs ↔ some pair ∈ pairs.map some := by simp
  rw [member, ← listed, List.mem_map]
  constructor
  · intro read
    obtain ⟨node, deep, same⟩ := read
    obtain ⟨entity, held, rfl⟩ := Option.map_eq_some_iff.1 same
    exact ⟨Std.ExtTreeSet.mem_toList.1 deep, held⟩
  · intro built
    exact ⟨pair.node, Std.ExtTreeSet.mem_toList.2 built.1, Option.map_eq_some_iff.2
      ⟨pair.entity, built.2, rfl⟩⟩

theorem Anchored.exists_deepPairs? {map : Correspondence} (anchored : map.Anchored) :
    ∃ pairs, map.deepPairs? = some pairs := by
  refine ⟨map.deepPredicates.toList.filterMap fun node =>
    map.entityOf[node]?.map fun entity => ⟨entity, node⟩, mapM_eq_some.2 ?_⟩
  rw [List.map_filterMap]
  have all : ∀ node ∈ map.deepPredicates.toList, ∃ entity, map.entityOf[node]? = some entity :=
    fun node listed => anchored node (Std.ExtTreeSet.mem_toList.1 listed)
  generalize map.deepPredicates.toList = nodes at all
  induction nodes with
  | nil => rfl
  | cons first rest ih =>
    obtain ⟨entity, held⟩ := all first List.mem_cons_self
    simp [held, ih fun node listed => all node (List.mem_cons_of_mem first listed)]

theorem Grows.anchored {map later : Correspondence} (grows : map.Grows later)
    (anchored : map.Anchored) : later.Anchored := by
  intro node member
  obtain ⟨entity, held⟩ := anchored node (grows.deepPredicates ▸ member)
  exact ⟨entity, grows.kept node entity held⟩

theorem Grows.indexed {map later : Correspondence} (grows : map.Grows later) {catalog : Catalog} :
    later.Indexed catalog ↔ map.Indexed catalog := by
  unfold Indexed
  rw [grows.deepPredicates, grows.law]

theorem Grows.builtAt {map later : Correspondence} (grows : map.Grows later)
    (anchored : map.Anchored) {pair : Pair} : later.BuiltAt pair ↔ map.BuiltAt pair := by
  unfold BuiltAt
  rw [grows.deepPredicates]
  refine and_congr_right fun member => ?_
  obtain ⟨entity, held⟩ := anchored pair.node member
  rw [held, grows.kept _ _ held]

theorem size_eq_one {nodes : Std.ExtTreeSet LawNodeId} {node : LawNodeId} (member : node ∈ nodes)
    (only : ∀ other ∈ nodes, other = node) : nodes.size = 1 := by
  have same : nodes = (∅ : Std.ExtTreeSet LawNodeId).insert node := by
    refine Std.ExtTreeSet.ext_mem fun other => ?_
    rw [Std.ExtTreeSet.mem_insert, Std.compare_eq_iff_eq]
    exact ⟨fun listed => Or.inl (only other listed).symm,
      fun either => either.elim (fun equal => equal ▸ member) (by simp)⟩
  rw [same, Std.ExtTreeSet.size_insert]
  simp

end Correspondence

namespace Matcher

variable {matcher later : Matcher} {catalog : Catalog} {plain : Bool} {map : Correspondence}

/-! ## The registry -/

theorem mem_covering {pairs : List Pair} {id : MapId} (listed : pairs ≠ [])
    (registered : ∀ pair ∈ pairs, id ∈ matcher.registered pair) : id ∈ matcher.covering pairs := by
  cases pairs with
  | nil => exact absurd rfl listed
  | cons first rest =>
    refine List.mem_filter.2 ⟨Std.ExtTreeSet.mem_toList.2 (registered first List.mem_cons_self), ?_⟩
    exact List.all_eq_true.2 fun pair member => Std.ExtTreeSet.mem_iff_contains.1
      (registered pair (List.mem_cons_of_mem first member))

/-- A correspondence that is left is registered where it was before. -/
theorem registered_forgetEntity (named : ∀ id map, matcher.get? id = some map → map.id = id)
    {entity : EntityId} {id : MapId} (found : (matcher.forgetEntity entity).get? id = some map)
    (pair : Pair) :
    id ∈ (matcher.forgetEntity entity).registered pair ↔ id ∈ matcher.registered pair := by
  rw [get?_forgetEntity named, Option.filter_eq_some_iff] at found
  rw [mem_registered_forgetEntity]
  refine and_iff_left fun other listed occurs same => ?_
  obtain ⟨key, foundOther⟩ := mem_toList.1 listed
  rw [named key other foundOther] at same
  obtain rfl := same.1
  obtain rfl := Option.some.inj (found.1.symm.trans foundOther)
  simp [occurs] at found

/-! ## The invariant -/

/-- No other correspondence was built from the same pairs. -/
def Lacks (matcher : Matcher) (catalog : Catalog) (map : Correspondence) : Prop :=
  ∀ id other, matcher.get? id = some other → other.Indexed catalog →
    ¬∀ pair, map.BuiltAt pair ↔ other.BuiltAt pair

/-- What holds of the correspondence under an identifier: it is registered where it was built. If
the matcher is `plain`, it was built from predicates. -/
structure Keeps (matcher : Matcher) (catalog : Catalog) (plain : Bool) (id : MapId)
    (map : Correspondence) : Prop where
  named : map.id = id
  paired : map.Paired
  built : ∃ node, node ∈ map.deepPredicates
  rooted : plain = true → ∀ node ∈ map.deepPredicates, catalog.isPredicate map.law node = true
  anchored : map.Indexed catalog → map.Anchored
  registered : map.Indexed catalog → ∀ pair, map.BuiltAt pair → id ∈ matcher.registered pair

/-- A correspondence that grows is still where it was built. -/
theorem Keeps.grow {id : MapId} {after : Correspondence}
    (keeps : matcher.Keeps catalog plain id map) (grows : map.Grows after)
    (listed : ∀ pair, id ∈ matcher.registered pair → id ∈ later.registered pair) :
    later.Keeps catalog plain id after where
  named := grows.id.trans keeps.named
  paired := grows.paired keeps.paired
  built := grows.deepPredicates ▸ keeps.built
  rooted := by
    rw [grows.deepPredicates, grows.law]
    exact keeps.rooted
  anchored := fun indexed => grows.anchored (keeps.anchored (grows.indexed.1 indexed))
  registered := fun indexed pair deep => by
    have before := grows.indexed.1 indexed
    exact listed pair (keeps.registered before pair
      ((grows.builtAt (keeps.anchored before)).1 deep))

/-- Correspondences are registered where they were built, and differ there. -/
structure Unique (matcher : Matcher) (catalog : Catalog) (plain : Bool) : Prop where
  keeps : ∀ id map, matcher.get? id = some map → matcher.Keeps catalog plain id map
  single : ∀ id other map otherMap, matcher.get? id = some map →
    matcher.get? other = some otherMap → map.Indexed catalog → otherMap.Indexed catalog →
    (∀ pair, map.BuiltAt pair ↔ otherMap.BuiltAt pair) → id = other

theorem unique_of_isEmpty (empty : matcher.maps = ∅) : matcher.Unique catalog plain := by
  have nothing : ∀ id map, matcher.get? id ≠ some map := by
    intro id map
    unfold get?
    rw [empty]
    simp
  exact ⟨fun id map found => absurd found (nothing id map),
    fun id _ map _ found => absurd found (nothing id map)⟩

theorem Unique.of_maps (unique : matcher.Unique catalog plain) (maps : later.maps = matcher.maps)
    (registry : later.registry = matcher.registry) : later.Unique catalog plain := by
  obtain ⟨otherMaps, nextMap, otherRegistry, checked, checks, maxChecks⟩ := later
  obtain rfl : otherMaps = matcher.maps := maps
  obtain rfl : otherRegistry = matcher.registry := registry
  exact ⟨fun id map found => (unique.keeps id map found).grow map.grows_refl fun _ listed => listed,
    unique.single⟩

theorem Unique.fewer (unique : matcher.Unique catalog plain) (sure : Bool) :
    matcher.Unique catalog (plain && sure) :=
  ⟨fun id map found => { unique.keeps id map found with
    rooted := fun all => (unique.keeps id map found).rooted (Bool.and_eq_true_iff.1 all).1 },
    unique.single⟩

theorem Unique.update (unique : matcher.Unique catalog plain) (id : MapId)
    {change : Correspondence → Correspondence}
    (grows : ∀ map : Correspondence, map.Grows (change map)) :
    (matcher.update id change).Unique catalog plain := by
  have origin : ∀ query later, (matcher.update id change).get? query = some later →
      ∃ map, matcher.get? query = some map ∧ map.Grows later := by
    intro query later found
    rw [get?_update] at found
    split at found
    · obtain ⟨map, before, rfl⟩ := Option.map_eq_some_iff.1 found
      exact ⟨map, before, grows map⟩
    · exact ⟨later, found, later.grows_refl⟩
  constructor
  · intro query after found
    obtain ⟨map, before, grown⟩ := origin query after found
    exact (unique.keeps query map before).grow grown fun _ listed => listed
  · intro query other after otherAfter found foundOther indexed otherIndexed same
    obtain ⟨map, before, grown⟩ := origin query after found
    obtain ⟨otherMap, beforeOther, grownOther⟩ := origin other otherAfter foundOther
    have mapIndexed := grown.indexed.1 indexed
    have otherMapIndexed := grownOther.indexed.1 otherIndexed
    apply unique.single query other map otherMap before beforeOther mapIndexed otherMapIndexed
    intro pair
    rw [← grown.builtAt ((unique.keeps query map before).anchored mapIndexed),
      ← grownOther.builtAt ((unique.keeps other otherMap beforeOther).anchored otherMapIndexed)]
    exact same pair

/-- What is taken in may be built anew if nothing was built from its pairs. -/
theorem Unique.allocate (unique : matcher.Unique catalog plain) (paired : map.Paired)
    (built : ∃ node, node ∈ map.deepPredicates)
    (rooted : plain = true → ∀ node ∈ map.deepPredicates, catalog.isPredicate map.law node = true)
    (anchored : map.Indexed catalog → map.Anchored)
    (lacks : map.Indexed catalog → matcher.Lacks catalog map) :
    (matcher.allocate map).2.Unique catalog plain := by
  have origin : ∀ query after, (matcher.allocate map).2.get? query = some after →
      (query = matcher.nextMap ∧ after = matcher.taken map) ∨ matcher.get? query = some after := by
    intro query after found
    rw [get?_allocate] at found
    split at found
    · exact Or.inl ⟨‹_›, (Option.some.inj found).symm⟩
    · exact Or.inr found
  constructor
  · intro query after found
    rcases origin query after found with ⟨rfl, rfl⟩ | before
    · refine ⟨rfl, paired, built, rooted, anchored, fun _ pair deep => ?_⟩
      have held := Correspondence.mem_pairs.2 ((paired _ _).2 deep.2)
      exact mem_registered_allocate.2 (Or.inr ⟨rfl, held⟩)
    · exact (unique.keeps query after before).grow after.grows_refl fun _ listed =>
        mem_registered_allocate.2 (Or.inl listed)
  · intro query other after otherAfter found foundOther indexed otherIndexed same
    rcases origin query after found with ⟨rfl, rfl⟩ | before
    · rcases origin other otherAfter foundOther with ⟨rfl, rfl⟩ | beforeOther
      · rfl
      · exact absurd same (lacks indexed other otherAfter beforeOther otherIndexed)
    · rcases origin other otherAfter foundOther with ⟨rfl, rfl⟩ | beforeOther
      · exact absurd (fun pair => (same pair).symm)
          (lacks otherIndexed query after before indexed)
      · exact unique.single query other after otherAfter before beforeOther indexed otherIndexed
          same

theorem Unique.forgetEntity (unique : matcher.Unique catalog plain) (entity : EntityId) :
    (matcher.forgetEntity entity).Unique catalog plain := by
  have named := fun id map found => (unique.keeps id map found).named
  have origin : ∀ id map, (matcher.forgetEntity entity).get? id = some map →
      matcher.get? id = some map := by
    intro id map found
    rw [get?_forgetEntity named] at found
    exact (Option.filter_eq_some_iff.1 found).1
  constructor
  · intro id map found
    exact (unique.keeps id map (origin id map found)).grow map.grows_refl fun pair listed =>
      (registered_forgetEntity named found pair).2 listed
  · intro id other map otherMap found foundOther
    exact unique.single id other map otherMap (origin id map found) (origin other _ foundOther)

/-! ## What is built anew -/

/-- What is not seeded yet was not built. -/
theorem Unique.lacks_of_isSeeded (unique : matcher.Unique catalog plain) {pair : Pair}
    (unseeded : matcher.isSeeded pair = false) (seeded : map.SeededAt pair) :
    matcher.Lacks catalog map := by
  intro id other found indexed same
  have here : other.BuiltAt pair := (same pair).1 ⟨seeded.member, seeded.held⟩
  have only : ∀ node ∈ other.deepPredicates, node = pair.node := by
    intro node member
    obtain ⟨entity, held⟩ := (unique.keeps id other found).anchored indexed node member
    exact seeded.node_eq ((same ⟨entity, node⟩).2 ⟨member, held⟩).1
  have listed := (unique.keeps id other found).registered indexed pair here
  have known : matcher.isSeeded pair = true := by
    refine List.any_eq_true.2 ⟨id, Std.ExtTreeSet.mem_toList.2 listed, ?_⟩
    rw [found]
    simp only [Bool.and_eq_true, beq_iff_eq]
    exact ⟨Correspondence.size_eq_one here.1 only, Std.ExtTreeSet.mem_iff_contains.1 here.1⟩
  rw [unseeded] at known
  exact Bool.false_ne_true known

section Union

variable {leftId rightId : MapId} {left right merged : Correspondence} {fills : Bool}

/-- Two parts have two deep predicates, so a union is registered only if they are predicates. -/
theorem Unites.isPredicate_of_indexed (unites : matcher.Unites catalog left right merged fills)
    (builtLeft : ∃ node, node ∈ left.deepPredicates)
    (builtRight : ∃ node, node ∈ right.deepPredicates) (indexed : merged.Indexed catalog) :
    ∀ node, node ∈ left.deepPredicates ∨ node ∈ right.deepPredicates →
      catalog.isPredicate left.law node = true := by
  intro node member
  rw [← unites.law_merged]
  refine indexed.elim (fun single => ?_) fun all => all node (unites.mem_deepPredicates.2 member)
  obtain ⟨first, inLeft⟩ := builtLeft
  obtain ⟨second, inRight⟩ := builtRight
  have same := Correspondence.eq_of_size_eq_one single
    (unites.mem_deepPredicates.2 (Or.inl inLeft)) (unites.mem_deepPredicates.2 (Or.inr inRight))
  exact absurd inRight (same ▸ unites.apart first inLeft)

theorem Unique.builtAt_merged (unique : matcher.Unique catalog plain)
    (foundLeft : matcher.get? leftId = some left) (foundRight : matcher.get? rightId = some right)
    (unites : matcher.Unites catalog left right merged fills) (indexed : merged.Indexed catalog)
    {pair : Pair} (deep : left.BuiltAt pair ∨ right.BuiltAt pair) : merged.BuiltAt pair := by
  have predicates := unites.isPredicate_of_indexed (unique.keeps _ _ foundLeft).built
    (unique.keeps _ _ foundRight).built indexed
  rcases deep with deep | deep
  · refine ⟨unites.mem_deepPredicates.2 (Or.inl deep.1), unites.entityOf_merged ?_⟩
    refine List.mem_append_left _ (List.mem_filter.2 ⟨?_, predicates _ (Or.inl deep.1)⟩)
    exact Correspondence.mem_pairs.2 (((unique.keeps _ _ foundLeft).paired _ _).2 deep.2)
  · refine ⟨unites.mem_deepPredicates.2 (Or.inr deep.1), unites.entityOf_merged ?_⟩
    refine List.mem_append_right _ (List.mem_filter.2 ⟨?_, ?_⟩)
    · exact Correspondence.mem_pairs.2 (((unique.keeps _ _ foundRight).paired _ _).2 deep.2)
    · rw [unites.law]
      exact predicates _ (Or.inr deep.1)

theorem Unique.anchored_merged (unique : matcher.Unique catalog plain)
    (foundLeft : matcher.get? leftId = some left) (foundRight : matcher.get? rightId = some right)
    (unites : matcher.Unites catalog left right merged fills) (indexed : merged.Indexed catalog) :
    merged.Anchored := by
  have predicates := unites.isPredicate_of_indexed (unique.keeps _ _ foundLeft).built
    (unique.keeps _ _ foundRight).built indexed
  intro node member
  rcases unites.mem_deepPredicates.1 member with inLeft | inRight
  · obtain ⟨entity, held⟩ := (unique.keeps _ _ foundLeft).anchored
      (Or.inr fun other inside => predicates other (Or.inl inside)) node inLeft
    have deep : left.BuiltAt ⟨entity, node⟩ := ⟨inLeft, held⟩
    exact ⟨entity, (unique.builtAt_merged foundLeft foundRight unites indexed (Or.inl deep)).2⟩
  · obtain ⟨entity, held⟩ := (unique.keeps _ _ foundRight).anchored
      (Or.inr fun other inside => unites.law ▸ predicates other (Or.inr inside)) node inRight
    have deep : right.BuiltAt ⟨entity, node⟩ := ⟨inRight, held⟩
    exact ⟨entity, (unique.builtAt_merged foundLeft foundRight unites indexed (Or.inr deep)).2⟩

/-- What was built from the pairs of a union would cover them. -/
theorem Unique.lacks_merged (unique : matcher.Unique catalog plain)
    (foundLeft : matcher.get? leftId = some left) (foundRight : matcher.get? rightId = some right)
    (unites : matcher.Unites catalog left right merged fills) (indexed : merged.Indexed catalog) :
    matcher.Lacks catalog merged := by
  intro id other found otherIndexed same
  obtain ⟨deepLeft, deepRight, pairsLeft, pairsRight, uncovered⟩ := unites.uncovered
  have covers : id ∈ matcher.covering (deepLeft ++ deepRight) := by
    refine mem_covering ?_ fun pair member => ?_
    · obtain ⟨node, inLeft⟩ := (unique.keeps _ _ foundLeft).built
      have predicates := unites.isPredicate_of_indexed (unique.keeps _ _ foundLeft).built
        (unique.keeps _ _ foundRight).built indexed
      obtain ⟨entity, held⟩ := (unique.keeps _ _ foundLeft).anchored
        (Or.inr fun other inside => predicates other (Or.inl inside)) node inLeft
      have listed : (⟨entity, node⟩ : Pair) ∈ deepLeft :=
        (Correspondence.mem_of_deepPairs? pairsLeft).2 ⟨inLeft, held⟩
      exact List.append_ne_nil_of_left_ne_nil (List.ne_nil_of_mem listed) _
    · have deep : left.BuiltAt pair ∨ right.BuiltAt pair :=
        (List.mem_append.1 member).imp (Correspondence.mem_of_deepPairs? pairsLeft).1
          (Correspondence.mem_of_deepPairs? pairsRight).1
      exact (unique.keeps id other found).registered otherIndexed pair
        ((same pair).1 (unique.builtAt_merged foundLeft foundRight unites indexed deep))
  rw [uncovered] at covers
  exact List.not_mem_nil covers

theorem Unique.allocateUnion (unique : matcher.Unique catalog plain)
    (foundLeft : matcher.get? leftId = some left) (foundRight : matcher.get? rightId = some right)
    (unites : matcher.Unites catalog left right merged fills) :
    (matcher.allocateUnion left right merged).2.Unique catalog plain := by
  obtain ⟨node, inLeft⟩ := (unique.keeps _ _ foundLeft).built
  refine (unique.allocate unites.paired_merged
    ⟨node, unites.mem_deepPredicates.2 (Or.inl inLeft)⟩ (fun all node member => ?_)
    (unique.anchored_merged foundLeft foundRight unites)
    (unique.lacks_merged foundLeft foundRight unites)).update _ fun _ =>
      ⟨rfl, rfl, rfl, fun _ _ holds => holds, fun paired => paired⟩
  rw [unites.law_merged]
  rcases unites.mem_deepPredicates.1 member with inLeft | inRight
  · exact (unique.keeps _ _ foundLeft).rooted all node inLeft
  · exact unites.law ▸ (unique.keeps _ _ foundRight).rooted all node inRight

end Union

theorem Unique.sow (unique : matcher.Unique catalog plain) {relation : Relation} {law : LawId}
    {pair : Pair} {plan : PairPlan}
    (planned : (Correspondence.empty law).plan? relation catalog pair = some plan)
    (predicate : plain = true → catalog.isPredicate law pair.node = true)
    (unseeded : matcher.isSeeded pair = false) :
    (matcher.allocate (.ofPlan law pair.node plan)).2.Unique catalog plain := by
  have seeded := Correspondence.seededAt_ofPlan planned
  refine unique.allocate (Correspondence.sound_ofPlan planned).paired ⟨_, seeded.member⟩
    (fun all node member => ?_) (fun _ node member => ?_)
    fun _ => unique.lacks_of_isSeeded unseeded seeded
  · rw [seeded.node_eq member, Correspondence.law_ofPlan]
    exact predicate all
  · rw [seeded.node_eq member]
    exact ⟨pair.entity, seeded.held⟩

/-- Also a seed at a node that is no predicate is found again, as long as it is not united. -/
theorem Unique.seed (unique : matcher.Unique catalog plain) (relation : Relation) (law : LawId)
    (pair : Pair) : (matcher.seed relation catalog law pair).2.Unique catalog
      (plain && catalog.isPredicate law pair.node) := by
  cases seeded : matcher.seed relation catalog law pair with
  | mk outcome later =>
    cases outcome with
    | none => exact (seed_eq_none seeded).2 ▸ unique.fewer _
    | some id =>
      have unseeded := isSeeded_of_seed_eq_some seeded
      obtain ⟨plan, planned, -, rfl⟩ := seed_eq_some seeded
      exact (unique.fewer _).sow planned (fun all => (Bool.and_eq_true_iff.1 all).2) unseeded

end Matcher

/-! ## Passes -/

namespace PassState

variable {context : PassContext} {state later : PassState} {events : List PassEvent}
  {plain : Bool}

theorem Act.unique (act : Act context state events later) (valid : context.catalog.Valid)
    (unique : state.matcher.Unique context.catalog plain) : later.matcher.Unique context.catalog plain := by
  cases act with
  | note tag entity => exact unique.of_maps rfl rfl
  | spend paid =>
    obtain ⟨-, rfl⟩ := Matcher.spend?_eq_some paid
    exact unique.of_maps rfl rfl
  | sow planned place unseeded =>
    exact unique.sow planned (fun _ => isPredicate_of_mem_seedPlaces valid place) unseeded
  | unite foundLeft foundRight united =>
    exact unique.allocateUnion foundLeft foundRight (Matcher.union?_eq_some.1 united)
  | satisfy found =>
    unfold markSatisfied
    split
    · exact unique
    · exact unique.update _ fun _ => ⟨rfl, rfl, rfl, fun _ _ holds => holds, fun paired => paired⟩
  | branch id node settled =>
    obtain ⟨-, same | ⟨map, pairs, formulas, -, adopted⟩⟩ :=
      state.appendBranch_cases context id node
    · rwa [same]
    · rw [adopted]
      exact unique.update _ fun map => (map.stays_adopt pairs formulas).toGrows
  | conclude id conclusions =>
    exact unique.update _ fun _ => ⟨rfl, rfl, rfl, fun _ _ holds => holds, fun paired => paired⟩

theorem Acts.unique (acts : Acts context state events later) (valid : context.catalog.Valid)
    (unique : state.matcher.Unique context.catalog plain) : later.matcher.Unique context.catalog plain := by
  induction acts with
  | refl => exact unique
  | step act _ ih => exact ih (act.unique valid unique)

end PassState

namespace Matcher

/-- What can be asked of a matcher under a catalog. The relation, and what a pass has brought so
far, are arbitrary. -/
inductive Use (catalog : Catalog) (matcher : Matcher) : Matcher → Prop
  | evaluate (relation : Relation) (options : PassOptions) (dirty : Std.ExtTreeSet EntityId) :
      Use catalog matcher (matcher.evaluate relation catalog options dirty).matcher
  | checkEntity (tentative : Bool) (relation : Relation) (outcome : Outcome) (entity : EntityId) :
      Use catalog matcher
        (PassState.checkEntity ⟨catalog, tentative⟩ ⟨matcher, relation, outcome⟩ entity).2.matcher
  | checkIntersections (tentative : Bool) (relation : Relation) (outcome : Outcome) (id : MapId) :
      Use catalog matcher
        (PassState.checkIntersections ⟨catalog, tentative⟩ ⟨matcher, relation, outcome⟩ id).matcher
  | checkIntersection (tentative : Bool) (relation : Relation) (outcome : Outcome)
      (left right : MapId) :
      Use catalog matcher (PassState.checkIntersection ⟨catalog, tentative⟩
        ⟨matcher, relation, outcome⟩ left right).2.matcher
  | append (tentative : Bool) (relation : Relation) (outcome : Outcome) (id : MapId) :
      Use catalog matcher
        (PassState.append ⟨catalog, tentative⟩ ⟨matcher, relation, outcome⟩ id).2.matcher
  | forgetEntity (entity : EntityId) : Use catalog matcher (matcher.forgetEntity entity)

/-- The matchers that one gets to from a new one; they are plain while no correspondence is seeded
by hand at a node that is no predicate. After a reset the catalog may be another. -/
inductive Reached : Catalog → Bool → Matcher → Prop
  | new (catalog : Catalog) (maxChecks : Nat) : Reached catalog true (empty maxChecks)
  | use {catalog : Catalog} {plain : Bool} {matcher later : Matcher} (valid : catalog.Valid)
      (reached : Reached catalog plain matcher) (use : Use catalog matcher later) :
      Reached catalog plain later
  | seed {catalog : Catalog} {plain : Bool} {matcher : Matcher}
      (reached : Reached catalog plain matcher) (relation : Relation) (law : LawId) (pair : Pair) :
      Reached catalog (plain && catalog.isPredicate law pair.node)
        (matcher.seed relation catalog law pair).2
  | reset {catalog : Catalog} {plain : Bool} {matcher : Matcher}
      (reached : Reached catalog plain matcher) (other : Catalog) :
      Reached other true matcher.reset

variable {matcher later : Matcher} {catalog : Catalog} {plain : Bool}

theorem Use.unique (use : Use catalog matcher later) (valid : catalog.Valid)
    (unique : matcher.Unique catalog plain) : later.Unique catalog plain := by
  cases use with
  | evaluate relation options dirty =>
    rw [matcher_evaluate]
    refine (matcher.acts_passed relation catalog options dirty).unique valid ?_
    unfold prepare
    split
    · exact unique_of_isEmpty rfl
    · exact unique.of_maps rfl rfl
  | checkEntity tentative relation outcome entity =>
    exact (PassState.acts_checkEntity _ _ entity).unique valid unique
  | checkIntersections tentative relation outcome id =>
    exact (PassState.acts_mergeAll _ _ _ id).unique valid unique
  | checkIntersection tentative relation outcome left right =>
    have merging := fun (state : PassState) id =>
      PassState.acts_mergeAll ⟨catalog, tentative⟩ state.matcher.budget state id
    have acts := PassState.acts_mergeWith merging ⟨matcher, relation, outcome⟩ left right
    exact acts.unique valid unique
  | append tentative relation outcome id => exact (PassState.acts_append _ _ id).unique valid unique
  | forgetEntity entity => exact unique.forgetEntity entity

theorem Reached.unique (reached : Reached catalog plain matcher) :
    matcher.Unique catalog plain := by
  induction reached with
  | new => exact unique_of_isEmpty rfl
  | use valid _ use ih => exact use.unique valid ih
  | seed _ relation law pair ih => exact ih.seed relation law pair
  | reset => exact unique_of_isEmpty rfl

/-- Two correspondences of a plain matcher were never built from the same pairs; nor were, in any
matcher, two that were built from a single pair or from predicates. -/
theorem Reached.eq_of_same_deepPairs (reached : Reached catalog plain matcher) {id other : MapId}
    {map otherMap : Correspondence} (found : matcher.get? id = some map)
    (foundOther : matcher.get? other = some otherMap)
    (indexed : plain = false → map.Indexed catalog ∧ otherMap.Indexed catalog) :
    ∃ pairs otherPairs, map.deepPairs? = some pairs ∧ otherMap.deepPairs? = some otherPairs ∧
      ((∀ pair, pair ∈ pairs ↔ pair ∈ otherPairs) → id = other) := by
  have unique := reached.unique
  obtain ⟨mapIndexed, otherIndexed⟩ : map.Indexed catalog ∧ otherMap.Indexed catalog := by
    cases plain with
    | false => exact indexed rfl
    | true =>
      exact ⟨Or.inr ((unique.keeps id map found).rooted rfl),
        Or.inr ((unique.keeps other otherMap foundOther).rooted rfl)⟩
  obtain ⟨pairs, told⟩ := ((unique.keeps id map found).anchored mapIndexed).exists_deepPairs?
  obtain ⟨otherPairs, otherTold⟩ :=
    ((unique.keeps other otherMap foundOther).anchored otherIndexed).exists_deepPairs?
  refine ⟨pairs, otherPairs, told, otherTold, fun same => ?_⟩
  apply unique.single id other map otherMap found foundOther mapIndexed otherIndexed
  intro pair
  rw [← Correspondence.mem_of_deepPairs? told, ← Correspondence.mem_of_deepPairs? otherTold]
  exact same pair

/-! ## A node that is no predicate -/

/-- Of three nodes side by side, only the first two are predicates. -/
def openEnded : Law :=
  { sideBySide [1, 2, 3] with
    predicateSets := [(∅ : Std.ExtTreeSet LawNodeId).insertMany [⟨1⟩, ⟨2⟩]] }

def openCatalog : Catalog where
  definition := ⟨mixed, [openEnded]⟩
  lineages := (mixedCatalog []).lineages
  fingerprint := Fingerprint.ofContent Fingerprint.catalogDomain
    (Definition.toCbor ⟨mixed, [openEnded]⟩)

theorem valid_openCatalog : openCatalog.Valid := by
  have concepts : openCatalog.definition.checkConcepts = .ok () := rfl
  have lineages : openCatalog.definition.lineages = .ok openCatalog.lineages := rfl
  have laws : Definition.checkLaws openCatalog.definition [] [] [openEnded] = .ok () := rfl
  refine ⟨openCatalog.definition, ?_⟩
  unfold Catalog.ofDefinition
  rw [concepts, lineages]
  change (Definition.checkLaws openCatalog.definition [] [] [openEnded] >>= fun _ => _) = _
  rw [laws]
  rfl

/-- Seeds of the crowd, one at a node each. -/
def sown (pairs : List Pair) : Matcher :=
  pairs.foldl (fun matcher pair => (matcher.seed crowd openCatalog openEnded.id pair).2) (empty 1000)

def united (matcher : Matcher) (left right : MapId) : Matcher :=
  (PassState.checkIntersection ⟨openCatalog, false⟩ ⟨matcher, crowd, .empty⟩ left right).2.matcher

/-- A seed at the third node, one at the first, and one at the second; the last two are united. -/
def openFull : Matcher := (sown [⟨⟨1⟩, ⟨3⟩⟩, ⟨⟨3⟩, ⟨1⟩⟩, ⟨⟨4⟩, ⟨2⟩⟩]).united ⟨1⟩ ⟨2⟩

/-- A seed at the third node is united with one at the first, and then once more. -/
def openTwice : Matcher := ((sown [⟨⟨1⟩, ⟨3⟩⟩, ⟨⟨3⟩, ⟨1⟩⟩]).united ⟨0⟩ ⟨1⟩).united ⟨0⟩ ⟨1⟩

theorem reached_sown (pairs : List Pair) : ∃ plain, Reached openCatalog plain (sown pairs) := by
  suffices ∀ matcher plain, Reached openCatalog plain matcher → ∃ plain, Reached openCatalog plain
      (pairs.foldl (fun matcher pair => (matcher.seed crowd openCatalog openEnded.id pair).2)
        matcher) from this _ _ (.new openCatalog 1000)
  induction pairs with
  | nil => exact fun matcher plain reached => ⟨plain, reached⟩
  | cons first rest ih => exact fun matcher plain reached => ih _ _ (reached.seed _ _ first)

theorem Reached.united {matcher : Matcher} {plain : Bool}
    (reached : Reached openCatalog plain matcher) (left right : MapId) :
    Reached openCatalog plain (matcher.united left right) :=
  reached.use valid_openCatalog (.checkIntersection false crowd .empty left right)

/-- The seed at the node that is no predicate and the full union were built from different pairs. -/
theorem eq_of_same_deepPairs_openFull : ∃ map otherMap, openFull.get? ⟨0⟩ = some map ∧
    openFull.get? ⟨3⟩ = some otherMap ∧ map.Indexed openCatalog ∧ otherMap.Indexed openCatalog ∧
      ∃ pairs otherPairs, map.deepPairs? = some pairs ∧ otherMap.deepPairs? = some otherPairs ∧
        ((∀ pair, pair ∈ pairs ↔ pair ∈ otherPairs) → (⟨0⟩ : MapId) = ⟨3⟩) := by
  obtain ⟨plain, reached⟩ := reached_sown [⟨⟨1⟩, ⟨3⟩⟩, ⟨⟨3⟩, ⟨1⟩⟩, ⟨⟨4⟩, ⟨2⟩⟩]
  have seeded : (openFull.get? ⟨0⟩).map (fun map => map.deepPredicates.size) = some 1 := by
    decide +kernel
  have full : (openFull.get? ⟨3⟩).map (fun map =>
      map.deepPredicates.toList.all (openCatalog.isPredicate map.law)) = some true := by
    decide +kernel
  obtain ⟨map, found, single⟩ := Option.map_eq_some_iff.1 seeded
  obtain ⟨otherMap, foundOther, inside⟩ := Option.map_eq_some_iff.1 full
  have predicates : ∀ node ∈ otherMap.deepPredicates,
      openCatalog.isPredicate otherMap.law node = true := by
    intro node member
    exact List.all_eq_true.1 inside node (Std.ExtTreeSet.mem_toList.2 member)
  refine ⟨map, otherMap, found, foundOther, Or.inl single, Or.inr predicates, ?_⟩
  exact (reached.united ⟨1⟩ ⟨2⟩).eq_of_same_deepPairs found foundOther fun _ =>
    ⟨Or.inl single, Or.inr predicates⟩

/-- A union with a seed at a node that is no predicate is built twice. -/
theorem not_forall_eq_of_same_deepPairs : ¬∀ (catalog : Catalog) (plain : Bool) (matcher : Matcher)
    (id other : MapId) (map otherMap : Correspondence), catalog.Valid →
      Reached catalog plain matcher → matcher.get? id = some map →
      matcher.get? other = some otherMap → map.deepPredicates = otherMap.deepPredicates →
      (∀ node ∈ map.deepPredicates, map.entityOf[node]? = otherMap.entityOf[node]?) →
      id = other := by
  intro all
  obtain ⟨plain, reached⟩ := reached_sown [⟨⟨1⟩, ⟨3⟩⟩, ⟨⟨3⟩, ⟨1⟩⟩]
  have present : (openTwice.get? ⟨2⟩).isSome = true := by decide +kernel
  have again : (openTwice.get? ⟨3⟩).map (fun map => (map.deepPredicates, map.entityOf)) =
      (openTwice.get? ⟨2⟩).map fun map => (map.deepPredicates, map.entityOf) := by decide +kernel
  obtain ⟨map, found⟩ := Option.isSome_iff_exists.1 present
  rw [found, Option.map_some] at again
  obtain ⟨otherMap, foundOther, same⟩ := Option.map_eq_some_iff.1 again
  obtain ⟨deep, held⟩ := Prod.mk.inj same
  have equal := all openCatalog plain openTwice ⟨2⟩ ⟨3⟩ map otherMap valid_openCatalog
    ((reached.united ⟨0⟩ ⟨1⟩).united ⟨0⟩ ⟨1⟩) found foundOther deep.symm
    (fun node _ => by rw [held])
  exact absurd equal (by decide)

end Matcher

end ConceptLaws
