import ConceptLaws.Proofs.Correspondence.Rederivation
import ConceptLaws.Proofs.Correspondence.Uniqueness

/-! Alternative predicate sets.
Matching starts at the deep predicates of a law, which are found among the predicates of all its
sets. A set is made of its deep predicates and what these need exactly if it descends: where
predicates link to one of its nodes, one of its own does. No correspondence ever maps another set
and nothing else. One that descends is mapped as soon as its deep predicates can be joined, group by
group, without a group that fills a set before. -/

namespace ConceptLaws

/-- Where predicates link to a node of the set, one of its own does. -/
def Law.Descends (law : Law) (set : Std.ExtTreeSet LawNodeId) : Prop :=
  ∀ id ∈ set, (∃ node ∈ law.nodes, id ∈ node.parents ∧ law.isPredicate node.id = true) →
    ∃ node ∈ law.nodes, id ∈ node.parents ∧ node.id ∈ set

namespace Catalog

/-- The set is made of deep predicates and what these need. -/
def Spanned (catalog : Catalog) (law : Law) (set : Std.ExtTreeSet LawNodeId) : Prop :=
  ∀ id, id ∈ set ↔ ∃ deep ∈ law.deepPredicates, deep ∈ set ∧ catalog.Needs law.id deep id

/-- Together with what they need, the nodes are a predicate set. -/
def Filled (catalog : Catalog) (law : Law) (group : List LawNodeId) : Prop :=
  ∃ set ∈ law.predicateSets, ∀ id, id ∈ set ↔ ∃ deep ∈ group, catalog.Needs law.id deep id

/-- Groups of deep predicates that come about by joining. A group that fills a predicate set is
joined with no other. -/
inductive Joined (catalog : Catalog) (law : Law) : List LawNodeId → Prop
  | single {deep : LawNodeId} (lowest : deep ∈ law.deepPredicates) : Joined catalog law [deep]
  | join {left right : List LawNodeId} (joinedLeft : Joined catalog law left)
      (joinedRight : Joined catalog law right) (unfilledLeft : ¬catalog.Filled law left)
      (unfilledRight : ¬catalog.Filled law right) (apart : ∀ deep ∈ left, deep ∉ right) :
      Joined catalog law (left ++ right)

variable {catalog : Catalog} {law : Law} {set : Std.ExtTreeSet LawNodeId}

theorem Joined.lowest {group : List LawNodeId} (joined : catalog.Joined law group) :
    ∀ deep ∈ group, deep ∈ law.deepPredicates := by
  induction joined with
  | single lowest => exact fun deep inside => List.mem_singleton.1 inside ▸ lowest
  | join _ _ _ _ _ ihLeft ihRight =>
    exact fun deep inside => (List.mem_append.1 inside).elim (ihLeft deep) (ihRight deep)

/-! ## Sets of nodes -/

/-- A predicate set has all that its nodes need. -/
theorem Valid.mem_of_needs (valid : catalog.Valid) (listed : law ∈ catalog.laws)
    (member : set ∈ law.predicateSets) {id other : LawNodeId} (held : id ∈ set)
    (needs : catalog.Needs law.id id other) : other ∈ set := by
  induction needs with
  | self => exact held
  | @link middle parent lawNode side _ found leads ih =>
    obtain ⟨node, named, -, closed⟩ :=
      (valid.distinct.valid law listed).predicate set member middle ih
    rw [valid.lawNode?_eq listed, named] at found
    obtain rfl := Option.some.inj found
    exact closed parent (LawNode.mem_parents.2 ⟨side, leads⟩)

/-- A set that descends ends in deep predicates. -/
theorem Valid.spanned_of_descends (valid : catalog.Valid) (listed : law ∈ catalog.laws)
    (member : set ∈ law.predicateSets) (descends : law.Descends set) :
    catalog.Spanned law set := by
  intro id
  constructor
  · intro held
    have predicate : ∀ other ∈ set, law.isPredicate other = true :=
      fun other inside => Law.isPredicate_iff.2 ⟨set, member, inside⟩
    obtain ⟨lowest, inside, needs, ends⟩ := valid.exists_lowest listed
      (fun other inside => valid.node?_of_isPredicate listed (predicate other inside)) held
    refine ⟨lowest, Law.mem_deepPredicates.2 ⟨predicate lowest inside, ?_⟩, inside, needs⟩
    intro node among above
    by_contra deeper
    obtain ⟨below, amongToo, aboveToo, insideToo⟩ :=
      descends lowest inside ⟨node, among, above, by simpa using deeper⟩
    exact ends below amongToo aboveToo insideToo
  · rintro ⟨deep, -, inside, needs⟩
    exact valid.mem_of_needs listed member inside needs

/-- A node of a spanned set that is not deep is linked to from the set, by the last link that leads
to it. -/
theorem Valid.descends_of_spanned (valid : catalog.Valid) (listed : law ∈ catalog.laws)
    (member : set ∈ law.predicateSets) (spanned : catalog.Spanned law set) :
    law.Descends set := by
  rintro id held ⟨node, among, above, deeper⟩
  obtain ⟨deep, lowest, inside, needs⟩ := (spanned id).1 held
  cases needs with
  | self =>
    have ends := (Law.mem_deepPredicates.1 lowest).2 node among above
    rw [deeper] at ends
    simp at ends
  | @link middle _ lawNode side needed found leads =>
    rw [valid.lawNode?_eq listed] at found
    obtain ⟨amongToo, rfl⟩ := Law.node?_eq_some found
    exact ⟨lawNode, amongToo, LawNode.mem_parents.2 ⟨side, leads⟩,
      valid.mem_of_needs listed member inside needed⟩

end Catalog

namespace Correspondence

variable {catalog : Catalog} {law : Law} {set : Std.ExtTreeSet LawNodeId} {relation : Relation}
  {birth : Correspondence} {group : List LawNodeId}

/-! ## Groups of deep predicates -/

/-- What is mapped is what the group needs. -/
theorem Derived.held_iff (derived : birth.Derived relation catalog) (valid : catalog.Valid)
    (named : birth.law = law.id) (built : ∀ deep, deep ∈ birth.deepPredicates ↔ deep ∈ group)
    (id : LawNodeId) : (∃ entity, birth.entityOf[id]? = some entity) ↔
      ∃ deep ∈ group, catalog.Needs law.id deep id := by
  constructor
  · rintro ⟨entity, held⟩
    obtain ⟨deep, inside, needs⟩ := derived.slim valid id entity held
    exact ⟨deep, (built deep).1 inside, named ▸ needs⟩
  · rintro ⟨deep, inside, needs⟩
    obtain ⟨_, place, _, _, -, held, -⟩ :=
      (derived.grounded valid).fits deep ((built deep).2 inside) id (named ▸ needs)
    exact ⟨place, held⟩

/-- All that is mapped are predicates. -/
theorem Derived.mem_predicateNodes (derived : birth.Derived relation catalog)
    (valid : catalog.Valid) (named : birth.law = law.id)
    (built : ∀ deep, deep ∈ birth.deepPredicates ↔ deep ∈ group) (id : LawNodeId) :
    id ∈ birth.predicateNodes catalog ↔ ∃ deep ∈ group, catalog.Needs law.id deep id := by
  rw [mem_predicateNodes_iff, derived.held_iff valid named built]
  refine and_iff_left_of_imp fun needed => ?_
  obtain ⟨deep, inside, needs⟩ := needed
  exact valid.isPredicate_of_needs ((derived.grounded valid).rooted deep ((built deep).2 inside))
    (named ▸ needs)

theorem Derived.fills_iff (derived : birth.Derived relation catalog) (valid : catalog.Valid)
    (listed : law ∈ catalog.laws) (named : birth.law = law.id)
    (built : ∀ deep, deep ∈ birth.deepPredicates ↔ deep ∈ group) :
    birth.Fills catalog ↔ catalog.Filled law group := by
  have needed := derived.mem_predicateNodes valid named built
  unfold Fills Catalog.coverage
  rw [named, valid.law? listed]
  dsimp only
  rw [Law.coverage_eq_exact_iff]
  constructor
  · intro filled
    refine ⟨_, filled, fun id => ?_⟩
    rw [← needed id]
    simp
  · rintro ⟨set, member, same⟩
    have equal : Std.ExtTreeSet.ofList (birth.predicateNodes catalog) = set :=
      Std.ExtTreeSet.ext_mem fun id => by rw [same, ← needed id]; simp
    exact equal ▸ member

/-- Whatever is derived was joined from its deep predicates. -/
theorem Derived.joined (derived : birth.Derived relation catalog) (valid : catalog.Valid)
    (listed : law ∈ catalog.laws) (named : birth.law = law.id) :
    ∃ group, catalog.Joined law group ∧ ∀ deep, deep ∈ birth.deepPredicates ↔ deep ∈ group := by
  induction derived with
  | @seed id pair plan place planned =>
    obtain ⟨owner, found, deepest⟩ := (Derived.seed place planned).deepest valid
    rw [named, valid.law? listed] at found
    obtain rfl := Option.some.inj found
    have seeded := seededAt_ofPlan planned
    refine ⟨[pair.node], .single (deepest pair.node seeded.member), fun deep => ?_⟩
    rw [List.mem_singleton]
    exact ⟨seeded.node_eq, fun same => same ▸ seeded.member⟩
  | @union matcher left right merged fills derivedLeft derivedRight unfilledLeft unfilledRight unites
      ihLeft ihRight =>
    have namedLeft : left.law = law.id := unites.law_merged.symm.trans named
    have namedRight : right.law = law.id := unites.law.trans namedLeft
    obtain ⟨first, joinedFirst, builtFirst⟩ := ihLeft namedLeft
    obtain ⟨second, joinedSecond, builtSecond⟩ := ihRight namedRight
    refine ⟨first ++ second, .join joinedFirst joinedSecond ?_ ?_ ?_, fun deep => ?_⟩
    · exact mt (derivedLeft.fills_iff valid listed namedLeft builtFirst).2 unfilledLeft
    · exact mt (derivedRight.fills_iff valid listed namedRight builtSecond).2 unfilledRight
    · intro deep inFirst inSecond
      exact unites.apart deep ((builtFirst deep).2 inFirst) ((builtSecond deep).2 inSecond)
    · rw [unites.mem_deepPredicates, builtFirst, builtSecond, List.mem_append]

/-- Nodes are placed at different entities, and what is planned from the deep predicates among them
follows the places. -/
structure Seats (law : Law) (catalog : Catalog) (relation : Relation)
    (set : Std.ExtTreeSet LawNodeId) (place : LawNodeId → EntityId) : Prop where
  injective : ∀ first ∈ set, ∀ second ∈ set, place first = place second → first = second
  planned : ∀ deep ∈ law.deepPredicates, deep ∈ set → ∃ plan : PairPlan,
    (empty law.id).plan? relation catalog ⟨place deep, deep⟩ = some plan ∧
      ∀ pair ∈ plan, pair.entity = place pair.node

/-- Only nodes of the set are mapped, each to its place. -/
def Occupies (map : Correspondence) (set : Std.ExtTreeSet LawNodeId) (place : LawNodeId → EntityId) :
    Prop :=
  ∀ (id : LawNodeId) (entity : EntityId), map.entityOf[id]? = some entity →
    id ∈ set ∧ entity = place id

variable {place : LawNodeId → EntityId} (valid : catalog.Valid) (listed : law ∈ catalog.laws)
  (member : set ∈ law.predicateSets) (seats : Seats law catalog relation set place)

include valid listed member seats

/-- Parts that are seated alike can be united: they lie within the set, and have the same entities at
the same nodes. -/
theorem Seats.exists_union {left right : Correspondence}
    (derivedLeft : left.Derived relation catalog) (derivedRight : right.Derived relation catalog)
    (namedLeft : left.law = law.id) (namedRight : right.law = law.id)
    (seatedLeft : left.Occupies set place) (seatedRight : right.Occupies set place)
    (apart : ∀ deep ∈ left.deepPredicates, deep ∉ right.deepPredicates) :
    ∃ merged fills, (Matcher.empty 0).Unites catalog left right merged fills := by
  have groundedLeft := derivedLeft.grounded valid
  have groundedRight := derivedRight.grounded valid
  obtain ⟨deepLeft, toldLeft⟩ : ∃ pairs, left.deepPairs? = some pairs :=
    Anchored.exists_deepPairs? fun _ built => groundedLeft.held built
  obtain ⟨deepRight, toldRight⟩ : ∃ pairs, right.deepPairs? = some pairs :=
    Anchored.exists_deepPairs? fun _ built => groundedRight.held built
  have inside : jointCoverage catalog left right ≠ .outside := by
    unfold jointCoverage Catalog.coverage
    rw [namedLeft, valid.law? listed]
    dsimp only
    refine Law.coverage_ne_outside_iff.2 ⟨set, member, fun id among => ?_⟩
    rw [Std.ExtTreeSet.mem_ofList, List.contains_iff_mem, List.mem_append] at among
    rcases among with inLeft | inRight
    · obtain ⟨⟨entity, held⟩, -⟩ := mem_predicateNodes_iff.1 inLeft
      exact (seatedLeft id entity held).1
    · obtain ⟨⟨entity, held⟩, -⟩ := mem_predicateNodes_iff.1 inRight
      exact (seatedRight id entity held).1
  have pairs : ∀ pair ∈ left.predicatePairs catalog ++ right.predicatePairs catalog,
      pair.node ∈ set ∧ pair.entity = place pair.node := by
    intro pair among
    rcases List.mem_append.1 among with inLeft | inRight
    · exact seatedLeft _ _ ((mem_predicatePairs groundedLeft.paired).1 inLeft).1
    · exact seatedRight _ _ ((mem_predicatePairs groundedRight.paired).1 inRight).1
  obtain ⟨base, recorded⟩ := @exists_recordAll (fun id entity => id ∈ set ∧ entity = place id)
    (fun _ _ _ one other => one.2.trans other.2.symm)
    (fun first second _ one other =>
      seats.injective first one.1 second other.1 (one.2.symm.trans other.2))
    _ pairs (empty left.law) (paired_empty left.law) (by simp [empty])
  exact ⟨_, _, namedRight.trans namedLeft.symm, derivedLeft.open_, derivedRight.open_, apart,
    ⟨deepLeft, deepRight, toldLeft, toldRight, Matcher.covering_empty 0 _⟩, inside, rfl, base,
    recorded, rfl⟩

/-- A group within the set comes about as it is joined. -/
theorem Seats.exists_derived (joined : catalog.Joined law group)
    (within : ∀ deep ∈ group, deep ∈ set) : ∃ birth : Correspondence,
      birth.Derived relation catalog ∧ birth.law = law.id ∧
      (∀ deep, deep ∈ birth.deepPredicates ↔ deep ∈ group) ∧ birth.Occupies set place := by
  induction joined with
  | @single deep lowest =>
    have inside := within deep (List.mem_singleton_self deep)
    obtain ⟨plan, planned, follows⟩ := seats.planned deep lowest inside
    have seeded := seededAt_ofPlan planned
    refine ⟨ofPlan law.id deep plan, .seed (PassState.mem_seedPlaces listed lowest) planned,
      law_ofPlan _ _ _, fun other => ?_, fun id entity held => ?_⟩
    · rw [List.mem_singleton]
      exact ⟨seeded.node_eq, fun same => same ▸ seeded.member⟩
    · have among : ⟨entity, id⟩ ∈ plan :=
        (mapped_foldl_record held).resolve_left (by simp [empty])
      have needs := ((widens_plan planned).2.2 _ among).1
      exact ⟨valid.mem_of_needs listed member inside needs, follows _ among⟩
  | @join first second _ _ unfilledFirst unfilledSecond apart ihFirst ihSecond =>
    obtain ⟨left, derivedLeft, namedLeft, builtLeft, seatedLeft⟩ :=
      ihFirst fun deep inside => within deep (List.mem_append_left second inside)
    obtain ⟨right, derivedRight, namedRight, builtRight, seatedRight⟩ :=
      ihSecond fun deep inside => within deep (List.mem_append_right first inside)
    obtain ⟨merged, fills, unites⟩ := seats.exists_union valid listed member derivedLeft derivedRight
      namedLeft namedRight seatedLeft seatedRight fun deep inLeft inRight =>
        apart deep ((builtLeft deep).1 inLeft) ((builtRight deep).1 inRight)
    refine ⟨merged, .union derivedLeft derivedRight ?_ ?_ unites,
      unites.law_merged.trans namedLeft, fun deep => ?_, fun id entity held => ?_⟩
    · exact mt (derivedLeft.fills_iff valid listed namedLeft builtLeft).1 unfilledFirst
    · exact mt (derivedRight.fills_iff valid listed namedRight builtRight).1 unfilledSecond
    · rw [unites.mem_deepPredicates, builtLeft, builtRight, List.mem_append]
    · exact ((entityOf_union unites (derivedLeft.grounded valid).paired
        (derivedRight.grounded valid).paired).1 held).2.elim (seatedLeft id entity)
        (seatedRight id entity)

end Correspondence

/-! ## Sets that come about -/

namespace Catalog.Valid

open Correspondence

variable {catalog : Catalog} {law : Law} {set : Std.ExtTreeSet LawNodeId}

/-- The deep predicates from which a correspondence was built that maps a set and nothing else are
those of the set. -/
theorem mem_group_iff (valid : catalog.Valid) (listed : law ∈ catalog.laws)
    {group : List LawNodeId} (lowest : ∀ deep ∈ group, deep ∈ law.deepPredicates)
    (filled : ∀ id, id ∈ set ↔ ∃ deep ∈ group, catalog.Needs law.id deep id) (deep : LawNodeId) :
    deep ∈ group ↔ deep ∈ law.deepPredicates ∧ deep ∈ set := by
  constructor
  · exact fun inside => ⟨lowest deep inside, (filled deep).2 ⟨deep, inside, .self⟩⟩
  · rintro ⟨last, held⟩
    obtain ⟨other, inside, needs⟩ := (filled deep).1 held
    have predicate := (Law.mem_deepPredicates.1 (lowest other inside)).1
    rw [← valid.isPredicate_eq listed] at predicate
    exact valid.eq_of_needs_deep listed predicate last needs ▸ inside

/-- A group that leaves out a deep predicate of each set fills none. -/
theorem not_filled (valid : catalog.Valid) (listed : law ∈ catalog.laws) {group : List LawNodeId}
    (lowest : ∀ deep ∈ group, deep ∈ law.deepPredicates)
    (missing : ∀ set ∈ law.predicateSets, ∃ deep ∈ law.deepPredicates, deep ∈ set ∧ deep ∉ group) :
    ¬catalog.Filled law group := by
  rintro ⟨set, member, filled⟩
  obtain ⟨deep, last, held, absent⟩ := missing set member
  exact absent ((valid.mem_group_iff listed lowest filled deep).2 ⟨last, held⟩)

/-- A predicate set is made of deep predicates of its own and what these need exactly if it descends.
A correspondence that maps the set and nothing else comes about for no other set, and only by joining
its deep predicates; in this way it does come about wherever the set is seated. -/
theorem spanned_iff_descends (valid : catalog.Valid) (listed : law ∈ catalog.laws)
    (member : set ∈ law.predicateSets) :
    (catalog.Spanned law set ↔ law.Descends set) ∧
    (∀ (relation : Relation) (map : Correspondence), map.Derived relation catalog →
      map.law = law.id → (∀ id, (∃ entity, map.entityOf[id]? = some entity) ↔ id ∈ set) →
        law.Descends set ∧ ∃ group, catalog.Joined law group ∧
          ∀ deep, deep ∈ group ↔ deep ∈ law.deepPredicates ∧ deep ∈ set) ∧
    (law.Descends set → ∀ group, catalog.Joined law group →
      (∀ deep, deep ∈ group ↔ deep ∈ law.deepPredicates ∧ deep ∈ set) →
        ∀ (relation : Relation) (place : LawNodeId → EntityId),
          Seats law catalog relation set place → ∃ map : Correspondence,
            map.Derived relation catalog ∧ map.law = law.id ∧ map.Fills catalog ∧
            ∀ id entity, map.entityOf[id]? = some entity ↔ id ∈ set ∧ entity = place id) := by
  refine ⟨⟨valid.descends_of_spanned listed member, valid.spanned_of_descends listed member⟩,
    fun relation map derived named mapped => ?_, fun descends group joined whole relation place seats =>
      ?_⟩
  · obtain ⟨group, joined, built⟩ := derived.joined valid listed named
    have filled (id : LawNodeId) : id ∈ set ↔ ∃ deep ∈ group, catalog.Needs law.id deep id :=
      (mapped id).symm.trans (derived.held_iff valid named built id)
    have whole := valid.mem_group_iff listed joined.lowest filled
    refine ⟨valid.descends_of_spanned listed member fun id => ?_, group, joined, whole⟩
    rw [filled]
    simp only [whole, and_assoc]
  · obtain ⟨map, derived, named, built, seated⟩ := seats.exists_derived valid listed member joined
      fun deep inside => ((whole deep).1 inside).2
    have spanned := valid.spanned_of_descends listed member descends
    have filled (id : LawNodeId) : id ∈ set ↔ ∃ deep ∈ group, catalog.Needs law.id deep id := by
      rw [spanned]
      simp only [whole, and_assoc]
    refine ⟨map, derived, named, (derived.fills_iff valid listed named built).2 ⟨set, member, filled⟩,
      fun id entity => ⟨seated id entity, ?_⟩⟩
    rintro ⟨inside, rfl⟩
    obtain ⟨entity, held⟩ := (derived.held_iff valid named built id).2 ((filled id).1 inside)
    rw [held, (seated id entity held).2]

end Catalog.Valid

/-! ## Sets within sets -/

def nodeSet (ids : List LawNodeId) : Std.ExtTreeSet LawNodeId :=
  (∅ : Std.ExtTreeSet LawNodeId).insertMany ids

theorem mem_nodeSet {ids : List LawNodeId} {id : LawNodeId} : id ∈ nodeSet ids ↔ id ∈ ids := by
  simp [nodeSet, Std.ExtTreeSet.mem_insertMany_list]

/-- A law with several predicate sets. -/
def eitherLaw (sets : List (List LawNodeId)) (nodes : List LawNode) : Law where
  id := ⟨100⟩
  name := ""
  nodes := nodes
  predicateSets := sets.map nodeSet
  deepNodes := []

/-- A q below a p, and an r; or an s as well. -/
def nestedLaw : Law := eitherLaw [[⟨1⟩, ⟨2⟩, ⟨3⟩], [⟨1⟩, ⟨2⟩, ⟨3⟩, ⟨4⟩]] [letterNode 1 1 none none,
  letterNode 2 2 (some ⟨1⟩) none, letterNode 3 3 none none, letterNode 4 4 none none]

def nested : Catalog := .unchecked ⟨letters, [nestedLaw]⟩

theorem valid_nested : nested.Valid := Catalog.valid_unchecked rfl rfl rfl

def nestedLetters : Relation := letterRelation [letterRecord 1 1 none, letterRecord 2 2 (some ⟨1⟩),
  letterRecord 3 3 none, letterRecord 4 4 none]

theorem deepPredicates_nestedLaw : nestedLaw.deepPredicates = [⟨2⟩, ⟨3⟩, ⟨4⟩] := by
  decide +kernel

/-- Each node at the entity of the same number. -/
def sameNumber (id : LawNodeId) : EntityId := ⟨id.number⟩

theorem seats_nestedLetters (set : Std.ExtTreeSet LawNodeId) :
    Correspondence.Seats nestedLaw nested nestedLetters set sameNumber := by
  refine ⟨fun first _ second _ same => ?_, fun deep lowest _ => ?_⟩
  · cases first
    cases second
    exact congrArg Identifier.mk (congrArg Identifier.number same)
  · rw [deepPredicates_nestedLaw] at lowest
    simp only [List.mem_cons, List.not_mem_nil, or_false] at lowest
    rcases lowest with rfl | rfl | rfl
    · exact ⟨[⟨⟨2⟩, ⟨2⟩⟩, ⟨⟨1⟩, ⟨1⟩⟩], by decide +kernel, by decide⟩
    · exact ⟨[⟨⟨3⟩, ⟨3⟩⟩], by decide +kernel, by decide⟩
    · exact ⟨[⟨⟨4⟩, ⟨4⟩⟩], by decide +kernel, by decide⟩

/-- The larger of two sets comes about when the s is joined before the r. -/
theorem spanned_iff_descends_nested : ∃ map : Correspondence,
    map.Derived nestedLetters nested ∧ map.law = nestedLaw.id ∧ map.Fills nested ∧
      ∀ id entity, map.entityOf[id]? = some entity ↔
        id ∈ nodeSet [⟨1⟩, ⟨2⟩, ⟨3⟩, ⟨4⟩] ∧ entity = sameNumber id := by
  have listed : nestedLaw ∈ nested.laws := List.mem_cons_self
  have unfilled (group : List LawNodeId) (lowest : ∀ deep ∈ group, deep ∈ nestedLaw.deepPredicates)
      (missing : ∀ set ∈ nestedLaw.predicateSets, ∃ deep ∈ nestedLaw.deepPredicates,
        deep ∈ set ∧ deep ∉ group) := valid_nested.not_filled listed lowest missing
  have joined : nested.Joined nestedLaw [⟨2⟩, ⟨4⟩, ⟨3⟩] :=
    .join (.join (.single (by decide +kernel)) (.single (by decide +kernel))
      (unfilled [⟨2⟩] (by decide +kernel) (by decide +kernel))
      (unfilled [⟨4⟩] (by decide +kernel) (by decide +kernel)) (by decide +kernel))
      (.single (by decide +kernel))
      (unfilled [⟨2⟩, ⟨4⟩] (by decide +kernel) (by decide +kernel))
      (unfilled [⟨3⟩] (by decide +kernel) (by decide +kernel)) (by decide +kernel)
  have member : nodeSet [⟨1⟩, ⟨2⟩, ⟨3⟩, ⟨4⟩] ∈ nestedLaw.predicateSets :=
    List.mem_cons_of_mem _ List.mem_cons_self
  obtain ⟨-, -, comes⟩ := valid_nested.spanned_iff_descends listed member
  refine comes (fun id held => ?_) [⟨2⟩, ⟨4⟩, ⟨3⟩] joined (fun deep => ?_) nestedLetters sameNumber
    (seats_nestedLetters _)
  · simp only [mem_nodeSet] at held ⊢
    revert id
    decide +kernel
  · rw [deepPredicates_nestedLaw, mem_nodeSet]
    simp only [List.mem_cons, List.not_mem_nil, or_false]
    grind

/-- A p, or a q below it as well. -/
def shadowedLaw : Law :=
  eitherLaw [[⟨1⟩], [⟨1⟩, ⟨2⟩]] [letterNode 1 1 none none, letterNode 2 2 (some ⟨1⟩) none]

def shadowed : Catalog := .unchecked ⟨letters, [shadowedLaw]⟩

/-- The only deep predicate is the q, which the p does not need. -/
theorem not_forall_spanned : ¬∀ (catalog : Catalog) (law : Law), catalog.Valid →
    law ∈ catalog.laws → ∀ set ∈ law.predicateSets, catalog.Spanned law set := by
  intro all
  have spanned := all shadowed shadowedLaw (Catalog.valid_unchecked rfl rfl rfl) List.mem_cons_self
    (nodeSet [⟨1⟩]) List.mem_cons_self
  obtain ⟨deep, lowest, inside, -⟩ := (spanned ⟨1⟩).1 (by decide +kernel)
  have none_ : ∀ deep ∈ shadowedLaw.deepPredicates,
      deep ∉ nodeSet [⟨1⟩] := by decide +kernel
  exact none_ deep lowest inside

end ConceptLaws
