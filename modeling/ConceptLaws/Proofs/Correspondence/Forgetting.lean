import ConceptLaws.Proofs.Correspondence.Exhaustion

/-! Between two passes.
An edit moves some entities, and makes the matcher forget the edited ones, with the correspondences in
which they occur. The books stay in order if no entity that is still noted as checked was moved, and if
every correspondence that was dropped had been built from an entity that is not noted any more: the next
pass looks at these again. -/

namespace ConceptLaws

open Correspondence

namespace Matcher

variable {matcher later : Matcher} {catalog : Catalog} {relation : Relation}

/-- What is left of a matcher that has forgotten some entities. -/
structure Forgets (matcher later : Matcher) (gone : EntityId → Prop) : Prop where
  found : ∀ id map, later.get? id = some map ↔
    matcher.get? id = some map ∧ ∀ entity, gone entity → map.nodeOf.contains entity = false
  listed : ∀ pair id, id ∈ later.registered pair → id ∈ matcher.registered pair ∧
    ∀ map, matcher.get? id = some map → pair ∈ map.pairs → later.get? id = some map
  next : later.nextMap = matcher.nextMap
  limit : later.maxChecks = matcher.maxChecks
  checked : ∀ id, id ∈ later.checked ↔ id ∈ matcher.checked ∧ ¬ gone id

theorem forgets_refl (matcher : Matcher) : matcher.Forgets matcher fun _ => False where
  found _ _ := by simp
  listed _ _ listed := ⟨listed, fun _ found _ => found⟩
  next := rfl
  limit := rfl
  checked _ := by simp

theorem Forgets.congr {gone other : EntityId → Prop} (forgets : matcher.Forgets later gone)
    (same : ∀ entity, gone entity ↔ other entity) : matcher.Forgets later other := by
  obtain rfl : gone = other := funext fun entity => propext (same entity)
  exact forgets

theorem Forgets.trans {last : Matcher} {gone other : EntityId → Prop}
    (forgets : matcher.Forgets later gone) (further : later.Forgets last other) :
    matcher.Forgets last fun entity => gone entity ∨ other entity where
  found id map := by
    rw [further.found, forgets.found, and_assoc]
    exact and_congr_right' ⟨fun both entity => Or.rec (both.1 entity) (both.2 entity),
      fun all => ⟨fun entity here => all entity (Or.inl here),
        fun entity here => all entity (Or.inr here)⟩⟩
  listed pair id listed := by
    obtain ⟨between, kept⟩ := further.listed pair id listed
    obtain ⟨before, keptBefore⟩ := forgets.listed pair id between
    exact ⟨before, fun map found member => kept map (keptBefore map found member) member⟩
  next := further.next.trans forgets.next
  limit := further.limit.trans forgets.limit
  checked id := by rw [further.checked, forgets.checked, and_assoc, not_or]

theorem forgets_forgetEntity (named : ∀ id map, matcher.get? id = some map → map.id = id)
    (entity : EntityId) : matcher.Forgets (matcher.forgetEntity entity) fun id => id = entity := by
  obtain ⟨maps, registry, same⟩ := matcher.forgetEntity_eq entity
  have kept (id : MapId) (map : Correspondence) : (matcher.forgetEntity entity).get? id = some map ↔
      matcher.get? id = some map ∧ map.nodeOf.contains entity = false := by
    rw [get?_forgetEntity named, Option.filter_eq_some_iff, Bool.not_eq_true']
  refine ⟨fun id map => by simp [kept], fun pair id listed => ?_, by rw [same], by rw [same],
    fun id => ?_⟩
  · obtain ⟨before, unscathed⟩ := mem_registered_forgetEntity.1 listed
    refine ⟨before, fun map found member => (kept id map).2 ⟨found, Bool.eq_false_iff.2 ?_⟩⟩
    intro occurs
    exact unscathed map (mem_toList.2 ⟨id, found⟩) occurs ⟨(named id map found).symm, member⟩
  · rw [same, and_comm, eq_comm]
    simp [Std.ExtTreeMap.mem_erase]

theorem forgets_foldl (entities : List EntityId) {matcher : Matcher}
    (named : ∀ id map, matcher.get? id = some map → map.id = id) :
    matcher.Forgets (entities.foldl forgetEntity matcher) fun id => id ∈ entities := by
  induction entities generalizing matcher with
  | nil => exact matcher.forgets_refl.congr fun _ => by simp
  | cons first rest ih =>
    have head := forgets_forgetEntity named first
    have tail := ih fun id map found => named id map ((head.found id map).1 found).1
    exact (head.trans tail).congr fun _ => List.mem_cons.symm

/-! ## Books that stay in order -/

/-- The state in which a pass starts that keeps the correspondences. -/
def start (matcher : Matcher) (relation : Relation) : PassState :=
  ⟨{ matcher with checks := 0 }, relation, .empty⟩

theorem Forgets.start {gone : EntityId → Prop} (forgets : matcher.Forgets later gone)
    (relation : Relation) : (matcher.start relation).matcher.Forgets later gone :=
  ⟨forgets.found, forgets.listed, forgets.next, forgets.limit, forgets.checked⟩

/-- The books of a matcher are in order before a pass over the relation. -/
def InOrder (matcher : Matcher) (catalog : Catalog) (relation : Relation) : Prop :=
  (matcher.start relation).Searched catalog (matcher.opening relation False)

end Matcher

namespace PassState

variable {catalog : Catalog} {opening : Opening} {state : PassState} {matcher : Matcher}
  {relation : Relation} {gone : EntityId → Prop}

/-- What a pass, or an edit, leaves to the next pass: a firm relation in which no entity that is still
noted has moved, and all correspondences but some that were built from an entity that is not noted. -/
structure Leaves (state : PassState) (matcher : Matcher) (relation : Relation)
    (gone : EntityId → Prop) : Prop where
  forgets : state.matcher.Forgets matcher gone
  firm : relation.Firm
  unmoved : ∀ id ∈ matcher.checked, state.relation.Unmoved relation id
  dropped : ∀ id map, state.matcher.get? id = some map → matcher.get? id = none →
    ∃ pair, map.BuiltAt pair ∧ pair.entity ∉ matcher.checked

variable (searched : state.Searched catalog opening) (leaves : state.Leaves matcher relation gone)

include leaves

theorem Leaves.kept {id : MapId} {map : Correspondence}
    (found : state.matcher.get? id = some map)
    (noted : ∀ pair, map.BuiltAt pair → pair.entity ∈ matcher.checked) :
    matcher.get? id = some map := by
  cases left : matcher.get? id with
  | none =>
    obtain ⟨pair, built, unnoted⟩ := leaves.dropped id map found left
    exact absurd (noted pair built) unnoted
  | some other => rw [((leaves.forgets.found id other).1 left).1.symm.trans found]

theorem Leaves.seeded {pair : Pair} (seeded : matcher.Seeded pair) : state.matcher.Seeded pair := by
  obtain ⟨id, map, found, at_⟩ := seeded
  exact ⟨id, map, ((leaves.forgets.found id map).1 found).1, at_⟩

include searched

/-- What is left was built from entities that are still noted. -/
theorem Leaves.rooted (paired : ∀ id map, state.matcher.get? id = some map → map.Paired) {pair : Pair}
    (built : matcher.Built pair) : pair.entity ∈ matcher.checked := by
  obtain ⟨id, map, found, at_⟩ := built
  obtain ⟨before, spared⟩ := (leaves.forgets.found id map).1 found
  refine (leaves.forgets.checked pair.entity).2 ⟨searched.rooted pair ⟨id, map, before, at_⟩, ?_⟩
  intro gone_
  have occurs := (paired id map before pair.entity pair.node).2 at_.2
  have absent := spared pair.entity gone_
  rw [← Bool.not_eq_true, ← Std.ExtTreeMap.mem_iff_contains,
    Std.ExtTreeMap.mem_iff_isSome_getElem?, occurs] at absent
  exact absent rfl

theorem Leaves.stems (valid : catalog.Valid)
    (paired : ∀ id map, state.matcher.get? id = some map → map.Paired) {id : MapId}
    {map : Correspondence} (found : matcher.get? id = some map) :
    ∃ birth : Correspondence, birth.Derived relation catalog ∧ birth.Bears map.satisfied map ∧
      (map.satisfied = true ↔ birth.Fills catalog) := by
  obtain ⟨birth, derived, bears, fills, -⟩ :=
    searched.traced.stems id map ((leaves.forgets.found id map).1 found).1
  refine ⟨birth, derived.unmoved valid searched.traced.counted.firm fun pair built => ?_, bears, fills⟩
  exact leaves.unmoved _ (leaves.rooted searched paired ⟨id, map, found, bears.builtAt built⟩)

theorem Leaves.registry (paired : ∀ id map, state.matcher.get? id = some map → map.Paired)
    {pair : Pair} {id : MapId} (listed : id ∈ matcher.registered pair) :
    ∃ map, matcher.get? id = some map ∧ map.Names catalog pair := by
  obtain ⟨before, kept⟩ := leaves.forgets.listed pair id listed
  obtain ⟨map, found, names⟩ := searched.traced.registry pair id before
  have member := mem_pairs.2 ((paired id map found pair.entity pair.node).2 names.1)
  exact ⟨map, kept map found member, names⟩

theorem Leaves.coupled (valid : catalog.Valid) (few : catalog.FewDeep)
    (paired : ∀ id map, state.matcher.get? id = some map → map.Paired) {law : LawId}
    {first second : Pair} {planFirst planSecond : PairPlan}
    (mates : Mates relation catalog law first second planFirst planSecond)
    (seededFirst : matcher.Seeded first) (seededSecond : matcher.Seeded second) :
    ∃ id map, matcher.get? id = some map ∧ map.BuiltAt first ∧ map.BuiltAt second := by
  have noted {pair : Pair} (seeded : matcher.Seeded pair) : pair.entity ∈ matcher.checked := by
    obtain ⟨id, map, found, at_⟩ := seeded
    exact leaves.rooted searched paired ⟨id, map, found, at_.builtAt⟩
  have before := mates.of_unmoved searched.traced.counted.firm
    (leaves.unmoved _ (noted seededFirst)) (leaves.unmoved _ (noted seededSecond))
  obtain ⟨id, map, found, builtFirst, builtSecond⟩ := searched.coupled law first second planFirst
    planSecond before (leaves.seeded seededFirst) (leaves.seeded seededSecond)
  refine ⟨id, map, leaves.kept found fun pair built => ?_, builtFirst, builtSecond⟩
  obtain ⟨birth, derived, bears, -⟩ := searched.traced.stems id map found
  have grounded := derived.grounded valid
  rcases derived.eq_or_eq_of_builtAt valid few (bears.of_builtAt grounded builtFirst)
    (bears.of_builtAt grounded builtSecond) mates.different (bears.of_builtAt grounded built) with
    rfl | rfl
  · exact noted seededFirst
  · exact noted seededSecond

theorem Leaves.tried {id : EntityId} (member : id ∈ matcher.checked) {place : LawId × LawNodeId}
    (listed : place ∈ seedPlaces catalog) {plan : PairPlan}
    (planned : (empty place.1).plan? relation catalog ⟨id, place.2⟩ = some plan) :
    matcher.Seeded ⟨id, place.2⟩ := by
  have unmoved := leaves.unmoved id member
  have before : (empty place.1).plan? state.relation catalog ⟨id, place.2⟩ = some plan :=
    (plan?_unmoved searched.traced.counted.firm unmoved).symm.trans planned
  obtain ⟨query, map, found, at_⟩ :=
    (searched.tried id ((leaves.forgets.checked id).1 member).1).2 place listed plan before
  refine ⟨query, map, leaves.kept found fun pair built => ?_, at_⟩
  rw [at_.eq_of_builtAt built]
  exact member

/-- The next pass finds the books in order. -/
theorem Leaves.inOrder (valid : catalog.Valid) (few : catalog.FewDeep)
    (paired : ∀ id map, state.matcher.get? id = some map → map.Paired) :
    matcher.InOrder catalog relation := by
  have before {id : MapId} {map : Correspondence} (found : matcher.get? id = some map) :=
    ((leaves.forgets.found id map).1 found).1
  refine ⟨⟨⟨leaves.firm, rfl⟩, fun id map found => ?_, fun id map found =>
    searched.traced.named id map (before found), fun id map found => ?_, fun pair id listed =>
    leaves.registry searched paired listed, Nat.le_refl _, Nat.zero_le _, rfl⟩,
    fun law first second planFirst planSecond mates seededFirst seededSecond =>
      leaves.coupled searched valid few paired mates seededFirst seededSecond,
    fun id member => ⟨(leaves.unmoved id member).contains, fun place listed plan planned =>
      leaves.tried searched member listed planned⟩,
    fun pair built => leaves.rooted searched paired built⟩
  · obtain ⟨birth, derived, bears, fills⟩ := leaves.stems searched valid paired found
    exact ⟨birth, derived, bears, fills, fun _ again => again.elim⟩
  · have issued := searched.traced.issued id map (before found)
    rw [← leaves.forgets.next] at issued
    exact issued

end PassState

/-! ## Passes -/

namespace Matcher

variable {matcher fresh : Matcher} {catalog : Catalog} {relation later : Relation}
  {options : PassOptions} {dirty : Std.ExtTreeSet EntityId}

/-- A pass accepts what it appends and has checks left in the end, and identifiers were left for one
more branch and for a correspondence for each check. -/
structure Lasts (matcher : Matcher) (relation : Relation) (catalog : Catalog) (options : PassOptions)
    (dirty : Std.ExtTreeSet EntityId) : Prop where
  plain : options.tentative = false
  spare : (matcher.evaluate relation catalog options dirty).matcher.checks < matcher.maxChecks
  small : matcher.nextMap.toNat + matcher.maxChecks < UInt64.size
  room : ∀ law ∈ catalog.laws, relation.nextId.toNat +
    (matcher.evaluate relation catalog options dirty).outcome.appended.length + law.nodes.length <
      UInt64.size

instance (matcher : Matcher) (relation : Relation) (catalog : Catalog) (options : PassOptions)
    (dirty : Std.ExtTreeSet EntityId) :
    Decidable (matcher.Lasts relation catalog options dirty) :=
  decidable_of_iff (_ ∧ _ ∧ _ ∧ _)
    ⟨fun ⟨plain, spare, small, room⟩ => ⟨plain, spare, small, room⟩,
      fun lasts => ⟨lasts.plain, lasts.spare, lasts.small, lasts.room⟩⟩

/-- The satisfied correspondences are those that can be derived and fill a predicate set. -/
structure Exhausts (matcher : Matcher) (catalog : Catalog) (relation : Relation) : Prop where
  stems : ∀ map ∈ matcher.satisfied, ∃ birth : Correspondence,
    birth.Derived relation catalog ∧ birth.Fills catalog ∧ birth.Bears true map
  holds : ∀ birth : Correspondence, birth.Derived relation catalog → birth.Fills catalog →
    ∃ map ∈ matcher.satisfied, ∃ other : Correspondence,
      other.Derived relation catalog ∧ birth.Coincides other ∧ other.Bears true map

theorem mem_satisfied {map : Correspondence} : map ∈ matcher.satisfied ↔
    (∃ id, matcher.get? id = some map) ∧ map.satisfied = true := by
  unfold satisfied
  rw [List.mem_filter, mem_toList]

/-- Books that are in order are so for a pass that keeps the correspondences and for one that does
not. -/
theorem InOrder.prepare (inOrder : matcher.InOrder catalog relation) (options : PassOptions) :
    PassState.Searched ⟨matcher.prepare options, relation, .empty⟩ catalog
      ((matcher.prepare options).opening relation False) := by
  cases reset : options.reset with
  | true =>
    rw [prepare_of_reset _ reset]
    exact searched_empty inOrder.traced.counted.firm matcher.maxChecks catalog False
  | false =>
    have same : matcher.prepare options = { matcher with checks := 0 } := by
      unfold Matcher.prepare
      rw [reset]
      rfl
    rw [same]
    exact inOrder

theorem inOrder_empty (firm : relation.Firm) (maxChecks : Nat) (catalog : Catalog) :
    (empty maxChecks).InOrder catalog relation :=
  searched_empty firm maxChecks catalog False

section Pass

variable (inOrder : matcher.InOrder catalog relation) (valid : catalog.Valid)
  (few : catalog.FewDeep) (lasts : matcher.Lasts relation catalog options dirty)

include inOrder valid few lasts

theorem InOrder.passed : (matcher.passed relation catalog options dirty).Searched catalog
      ((matcher.prepare options).opening relation False) ∧
    ∀ birth : Correspondence,
      birth.Derived (matcher.passed relation catalog options dirty).relation catalog →
      (matcher.passed relation catalog options dirty).Holds catalog
        ((matcher.prepare options).opening relation False) birth := by
  have limit : (matcher.prepare options).maxChecks = matcher.maxChecks := by
    unfold Matcher.prepare
    split
    · rfl
    · rfl
  have fewer : (matcher.prepare options).nextMap.toNat ≤ matcher.nextMap.toNat := by
    unfold Matcher.prepare
    split
    · exact Nat.zero_le _
    · exact Nat.le_refl _
  have small := lasts.small
  refine searched_passed valid few lasts.plain (inOrder.prepare options) (by omega) ?_ lasts.room
    False.elim
  have kept : (matcher.passed relation catalog options dirty).matcher.maxChecks =
      (matcher.prepare options).maxChecks := (PassState.advances_rounds _ _ _ _ _ _).limit
  unfold PassState.Spare
  rw [kept, limit]
  exact lasts.spare

/-- After a pass that lasts, the books are in order for the next one. -/
theorem InOrder.evaluate (grounded : matcher.Grounded catalog relation) :
    (matcher.evaluate relation catalog options dirty).matcher.InOrder catalog
      (matcher.evaluate relation catalog options dirty).relation := by
  obtain ⟨searched, -⟩ := inOrder.passed valid few lasts
  have same := (matcher.passed relation catalog options dirty).relation.sameEntities_recomputeDeep
  have paired := fun id map found =>
    ((grounded.evaluate valid options dirty).maps id map found).paired
  rw [matcher_evaluate, relation_evaluate] at *
  have leaves : (matcher.passed relation catalog options dirty).Leaves
      (matcher.passed relation catalog options dirty).matcher
      (matcher.passed relation catalog options dirty).relation.recomputeDeep
      fun _ => False :=
    ⟨forgets_refl _, same.firm searched.traced.counted.firm,
      fun id member => same.wider.unmoved (searched.tried id member).1,
      fun id map found left => by cases left.symm.trans found⟩
  exact leaves.inOrder searched valid few paired

/-- A pass that lasts leaves nothing to be found. -/
theorem InOrder.exhausts : (matcher.evaluate relation catalog options dirty).matcher.Exhausts catalog
    (matcher.evaluate relation catalog options dirty).relation := by
  obtain ⟨searched, holds⟩ := inOrder.passed valid few lasts
  have same := (matcher.passed relation catalog options dirty).relation.sameEntities_recomputeDeep
  have firm := searched.traced.counted.firm
  rw [matcher_evaluate, relation_evaluate]
  refine ⟨fun map member => ?_, fun birth derived filled => ?_⟩
  · obtain ⟨⟨id, found⟩, satisfied⟩ := mem_satisfied.1 member
    obtain ⟨birth, derived, bears, fills, -⟩ := searched.traced.stems id map found
    exact ⟨birth, derived.gains valid same.gains firm, fills.1 satisfied, satisfied ▸ bears⟩
  · obtain ⟨id, map, other, found, derivedOther, same_, bears, fills, -⟩ :=
      holds birth (derived.of_sameEntities valid same firm)
    have satisfied := fills.2 filled
    exact ⟨map, mem_satisfied.2 ⟨⟨id, found⟩, satisfied⟩, other,
      derivedOther.gains valid same.gains firm, same_, satisfied ▸ bears⟩

end Pass

end Matcher

/-! ## Correspondences of one match -/

namespace Correspondence

variable {map twin birth other : Correspondence} {catalog : Catalog} {relation later : Relation}

/-- Two correspondences stand for one match: they were built from the same deep predicates of one law,
and map the nodes that these need to the same entities. Where the law has a single predicate set, they
have the same pairs at its predicates. -/
structure Matches (map twin : Correspondence) (catalog : Catalog) : Prop where
  law : twin.law = map.law
  deepPredicates : twin.deepPredicates = map.deepPredicates
  needed : ∀ deep ∈ map.deepPredicates, ∀ node, catalog.Needs map.law deep node →
    twin.entityOf[node]? = map.entityOf[node]?
  predicates : ∀ law ∈ catalog.laws, law.id = map.law → law.predicateSets.length = 1 →
    ∀ node, law.isPredicate node = true → twin.entityOf[node]? = map.entityOf[node]?

/-- What a derived correspondence was built from can be told from what it maps. -/
theorem Derived.mem_deepPredicates (derived : birth.Derived relation catalog) (valid : catalog.Valid)
    {law : Law} (listed : catalog.law? birth.law = some law) {node : LawNodeId} :
    node ∈ birth.deepPredicates ↔
      node ∈ law.deepPredicates ∧ ∃ entity, birth.entityOf[node]? = some entity := by
  have grounded := derived.grounded valid
  constructor
  · intro built
    obtain ⟨owner, found, deepest⟩ := derived.deepest valid
    obtain rfl := Option.some.inj (listed.symm.trans found)
    exact ⟨deepest node built, grounded.held built⟩
  · rintro ⟨lowest, entity, held⟩
    obtain ⟨deep, built, needs⟩ := derived.slim valid node entity held
    obtain ⟨inCatalog, named⟩ := Catalog.law?_eq_some listed
    have rooted := grounded.rooted deep built
    rw [← named] at needs rooted
    exact valid.eq_of_needs_deep inCatalog rooted lowest needs ▸ built

theorem Derived.deepPredicates_eq (derived : birth.Derived relation catalog) (valid : catalog.Valid)
    (derivedToo : other.Derived later catalog) (same : birth.Coincides other) :
    other.deepPredicates = birth.deepPredicates := by
  obtain ⟨law, listed, -⟩ := derived.deepest valid
  refine Std.ExtTreeSet.ext_mem fun node => ?_
  rw [derived.mem_deepPredicates valid listed,
    derivedToo.mem_deepPredicates valid (same.law ▸ listed), same.entityOf]

/-- What fills the only predicate set of a law maps all predicates. -/
theorem Fills.mapped (filled : birth.Fills catalog) (valid : catalog.Valid) {law : Law}
    (listed : law ∈ catalog.laws) (named : law.id = birth.law)
    (single : law.predicateSets.length = 1) {node : LawNodeId}
    (predicate : law.isPredicate node = true) : ∃ entity, birth.entityOf[node]? = some entity := by
  obtain ⟨other, listedToo, namedToo, set, member, mapped⟩ := exists_set_of_fills filled
  have found := valid.law? listed
  rw [named, ← namedToo, valid.law? listedToo] at found
  obtain rfl := Option.some.inj found
  obtain ⟨only, sets⟩ := List.length_eq_one_iff.1 single
  rw [sets, List.mem_singleton] at member
  exact mapped node (member ▸ (Catalog.Law.isPredicate_of_single sets).1 predicate)

/-- What becomes of derived correspondences with the same pairs stands for one match. -/
theorem matches_of_coincides (valid : catalog.Valid) (derived : birth.Derived relation catalog)
    (filled : birth.Fills catalog) (bears : birth.Bears true map)
    (derivedToo : other.Derived later catalog) (same : birth.Coincides other)
    (bearsToo : other.Bears true twin) : map.Matches twin catalog := by
  have alike {node : LawNodeId} (mapped : ∃ entity, birth.entityOf[node]? = some entity) :
      twin.entityOf[node]? = map.entityOf[node]? := by
    obtain ⟨entity, held⟩ := mapped
    rw [bears.kept node entity held, bearsToo.kept node entity (same.entityOf ▸ held)]
  refine ⟨?_, ?_, fun deep built node needs => alike ?_,
    fun law listed named single node predicate => alike ?_⟩
  · rw [bears.law, bearsToo.law, same.law]
  · rw [bears.deepPredicates, bearsToo.deepPredicates,
      derived.deepPredicates_eq valid derivedToo same]
  · rw [bears.law] at needs
    obtain ⟨-, place, -, -, -, holds, -⟩ :=
      (derived.grounded valid).fits deep (bears.deepPredicates ▸ built) node needs
    exact ⟨place, holds⟩
  · exact filled.mapped valid listed (named.trans bears.law) single predicate

end Correspondence

/-- A matcher that exhausts a relation and one that exhausts a wider one have the same matches, as far
as the entities of these were there before. -/
theorem Matcher.Exhausts.matches {matcher fresh : Matcher} {catalog : Catalog}
    {relation later : Relation} (exhausts : matcher.Exhausts catalog relation)
    (exhaustsToo : fresh.Exhausts catalog later) (valid : catalog.Valid) (firm : relation.Firm)
    (wider : relation.Extends later) :
    (∀ map ∈ matcher.satisfied, ∃ twin ∈ fresh.satisfied, map.Matches twin catalog) ∧
    ∀ twin ∈ fresh.satisfied,
      (∀ pair, twin.BuiltAt pair → relation.contains pair.entity = true) →
        ∃ map ∈ matcher.satisfied, map.Matches twin catalog := by
  constructor
  · intro map member
    obtain ⟨birth, derived, filled, bears⟩ := exhausts.stems map member
    have derivedLater := derived.unmoved valid firm fun pair built =>
      wider.unmoved ((derived.within valid).mapped _ _ built.2)
    obtain ⟨twin, member, other, derivedToo, same, bearsToo⟩ :=
      exhaustsToo.holds birth derivedLater filled
    exact ⟨twin, member, matches_of_coincides valid derived filled bears derivedToo same bearsToo⟩
  · intro twin member present
    obtain ⟨birth, derived, filled, bears⟩ := exhaustsToo.stems twin member
    have derivedBefore := derived.of_unmoved valid firm fun pair built =>
      wider.unmoved (present pair (bears.builtAt built))
    obtain ⟨map, member, other, derivedToo, same, bearsToo⟩ :=
      exhausts.holds birth derivedBefore filled
    exact ⟨map, member, matches_of_coincides valid derivedToo (same.fills.2 filled) bearsToo derived
      same.symm bears⟩

end ConceptLaws
