import ConceptLaws.Proofs.Correspondence.Tracing

/-! Unions of two seeds.
Where no predicate set has more than two deep predicates, whatever is united are two seeds, and a
union is determined by the two pairs at which they were sown, in whatever order. -/

namespace ConceptLaws

/-- No predicate set of a law has more than two deep predicates. -/
def Catalog.FewDeep (catalog : Catalog) : Prop :=
  ∀ law ∈ catalog.laws, ∀ set ∈ law.predicateSets,
    (law.deepPredicates.filter set.contains).length ≤ 2

instance (catalog : Catalog) : Decidable catalog.FewDeep :=
  inferInstanceAs (Decidable (∀ law ∈ catalog.laws, ∀ set ∈ law.predicateSets,
    (law.deepPredicates.filter set.contains).length ≤ 2))

namespace Correspondence

variable {birth left right merged : Correspondence} {catalog : Catalog} {relation later : Relation}
  {law : LawId} {pair first second : Pair} {plan planFirst planSecond : PairPlan}

/-- A derived correspondence is built from deep predicates of its law. -/
theorem Derived.deepest (derived : birth.Derived relation catalog) (valid : catalog.Valid) :
    ∃ owner, catalog.law? birth.law = some owner ∧
      ∀ deep ∈ birth.deepPredicates, deep ∈ owner.deepPredicates := by
  induction derived with
  | @seed law pair plan place planned =>
    obtain ⟨owner, listed, inside⟩ := List.mem_flatMap.1 place
    obtain ⟨deep, member, same⟩ := List.mem_map.1 inside
    obtain ⟨rfl, rfl⟩ := Prod.mk.inj same
    refine ⟨owner, ?_, fun other built => ?_⟩
    · rw [law_ofPlan]
      exact valid.law? listed
    · rw [(seededAt_ofPlan planned).node_eq built]
      exact member
  | @union matcher left right merged fills _ _ _ _ unites ihLeft ihRight =>
    obtain ⟨owner, listed, deepLeft⟩ := ihLeft
    obtain ⟨other, listedToo, deepRight⟩ := ihRight
    rw [unites.law, listed] at listedToo
    obtain rfl := Option.some.inj listedToo
    refine ⟨owner, ?_, fun deep built => ?_⟩
    · rw [unites.law_merged]
      exact listed
    · exact (unites.mem_deepPredicates.1 built).elim (deepLeft deep) (deepRight deep)

/-- Only correspondences with a single deep predicate are united. -/
theorem Derived.single_of_unites (few : catalog.FewDeep) (valid : catalog.Valid)
    (derivedLeft : left.Derived relation catalog) (derivedRight : right.Derived relation catalog)
    {matcher : Matcher} {fills : Bool}
    (unites : matcher.Unites catalog left right merged fills) :
    left.deepPredicates.size = 1 ∧ right.deepPredicates.size = 1 := by
  obtain ⟨owner, listed, deepLeft⟩ := derivedLeft.deepest valid
  obtain ⟨other, listedToo, deepRight⟩ := derivedRight.deepest valid
  rw [unites.law, listed] at listedToo
  obtain rfl := Option.some.inj listedToo
  have inside := unites.inside
  unfold jointCoverage Catalog.coverage at inside
  rw [listed] at inside
  obtain ⟨set, member, within⟩ := Law.coverage_ne_outside_iff.1 inside
  have there {part : Correspondence} (grounded : part.Grounded catalog relation) {deep : LawNodeId}
      (built : deep ∈ part.deepPredicates) : deep ∈ part.predicateNodes catalog :=
    mem_predicateNodes_iff.2 ⟨grounded.held built, grounded.rooted deep built⟩
  have once : (left.deepPredicates.toList ++ right.deepPredicates.toList).Nodup := by
    refine List.nodup_append.2 ⟨Law.nodup_toList _, Law.nodup_toList _,
      fun one inLeft two inRight same => ?_⟩
    refine unites.apart one (Std.ExtTreeSet.mem_toList.1 inLeft) ?_
    exact same ▸ Std.ExtTreeSet.mem_toList.1 inRight
  have among : left.deepPredicates.toList ++ right.deepPredicates.toList ⊆
      owner.deepPredicates.filter set.contains := by
    intro deep listed
    rw [List.mem_filter]
    rcases List.mem_append.1 listed with inLeft | inRight
    · have built := Std.ExtTreeSet.mem_toList.1 inLeft
      refine ⟨deepLeft deep built, Std.ExtTreeSet.mem_iff_contains.1 (within deep ?_)⟩
      simpa using Or.inl (there (derivedLeft.grounded valid) built)
    · have built := Std.ExtTreeSet.mem_toList.1 inRight
      refine ⟨deepRight deep built, Std.ExtTreeSet.mem_iff_contains.1 (within deep ?_)⟩
      simpa using Or.inr (there (derivedRight.grounded valid) built)
  have most := (List.subperm_of_subset once among).length_le.trans
    (few owner (Catalog.law?_eq_some listed).1 set member)
  rw [List.length_append, Std.ExtTreeSet.length_toList, Std.ExtTreeSet.length_toList] at most
  have some_ {part : Correspondence} (built : ∃ deep, deep ∈ part.deepPredicates) :
      1 ≤ part.deepPredicates.size := by
    obtain ⟨deep, built⟩ := built
    rw [← Std.ExtTreeSet.length_toList]
    exact List.length_pos_of_mem (Std.ExtTreeSet.mem_toList.2 built)
  have someLeft := some_ derivedLeft.built
  have someRight := some_ derivedRight.built
  omega

/-! ## Seeds -/

/-- What was built from a single deep predicate is a seed. -/
theorem Derived.seed_of_single (derived : birth.Derived relation catalog)
    (single : birth.deepPredicates.size = 1) : ∃ law pair plan,
      (law, pair.node) ∈ PassState.seedPlaces catalog ∧
      (empty law).plan? relation catalog pair = some plan ∧ birth = ofPlan law pair.node plan := by
  cases derived with
  | seed place planned => exact ⟨_, _, _, place, planned, rfl⟩
  | union derivedLeft derivedRight unfilledLeft unfilledRight unites =>
    exact absurd single (several_union unites derivedLeft.built derivedRight.built)

/-- There is only one seed at a pair. -/
theorem Derived.eq_ofPlan (derived : birth.Derived relation catalog) (valid : catalog.Valid)
    (seeded : birth.SeededAt pair) (place : (law, pair.node) ∈ PassState.seedPlaces catalog)
    (planned : (empty law).plan? relation catalog pair = some plan) :
    birth = ofPlan law pair.node plan := by
  obtain ⟨other, spot, planToo, placeToo, plannedToo, rfl⟩ := derived.seed_of_single seeded.single
  obtain rfl := seeded.pair_eq (seededAt_ofPlan plannedToo)
  obtain rfl : other = law := valid.law_eq_of_isPredicate
    (PassState.isPredicate_of_mem_seedPlaces valid placeToo)
    (PassState.isPredicate_of_mem_seedPlaces valid place)
  rw [Option.some.inj (plannedToo.symm.trans planned)]

/-! ## Mates -/

/-- Pairs that one correspondence has can be recorded one after the other. -/
theorem exists_recordAll_of_held {goal : Correspondence} (whole : goal.Paired) {pairs : List Pair}
    (held : ∀ pair ∈ pairs, goal.entityOf[pair.node]? = some pair.entity) :
    ∃ later, (empty law).recordAll? pairs = some later := by
  refine @exists_recordAll (fun node entity => goal.entityOf[node]? = some entity)
    (fun node first second inFirst inSecond => Option.some.inj (inFirst.symm.trans inSecond))
    (fun first second entity inFirst inSecond => ?_) pairs held _ (paired_empty law)
    (by simp [empty])
  exact Option.some.inj
    (((whole entity first).2 inFirst).symm.trans ((whole entity second).2 inSecond))

/-- Two seeds that fill no predicate set, and can be united. -/
structure Mates (relation : Relation) (catalog : Catalog) (law : LawId) (first second : Pair)
    (planFirst planSecond : PairPlan) : Prop where
  placeFirst : (law, first.node) ∈ PassState.seedPlaces catalog
  placeSecond : (law, second.node) ∈ PassState.seedPlaces catalog
  plannedFirst : (empty law).plan? relation catalog first = some planFirst
  plannedSecond : (empty law).plan? relation catalog second = some planSecond
  unfilledFirst : ¬ (ofPlan law first.node planFirst).Fills catalog
  unfilledSecond : ¬ (ofPlan law second.node planSecond).Fills catalog
  united : ∃ (matcher : Matcher) (merged : Correspondence) (fills : Bool),
    matcher.Unites catalog (ofPlan law first.node planFirst) (ofPlan law second.node planSecond)
      merged fills

variable (mates : Mates relation catalog law first second planFirst planSecond)

include mates

theorem Mates.different : first.node ≠ second.node := by
  obtain ⟨matcher, merged, fills, unites⟩ := mates.united
  intro same
  have inSecond := (seededAt_ofPlan mates.plannedSecond).member
  exact unites.apart first.node (seededAt_ofPlan mates.plannedFirst).member (same ▸ inSecond)

/-- Any matcher unites them that does not cover their pairs. -/
theorem Mates.unites {matcher : Matcher} (uncovered : matcher.covering [first, second] = []) :
    ∃ merged fills, matcher.Unites catalog (ofPlan law first.node planFirst)
      (ofPlan law second.node planSecond) merged fills := by
  obtain ⟨other, merged, fills, unites⟩ := mates.united
  exact ⟨merged, fills, { unites with
    uncovered := ⟨_, _, (seededAt_ofPlan mates.plannedFirst).deepPairs?,
      (seededAt_ofPlan mates.plannedSecond).deepPairs?, uncovered⟩ }⟩

/-- Which of them comes first makes no difference. -/
theorem Mates.symm : Mates relation catalog law second first planSecond planFirst := by
  obtain ⟨matcher, merged, fills, unites⟩ := mates.united
  obtain ⟨base, recorded, -⟩ := unites.recorded
  have laws : (ofPlan law first.node planFirst).law = (ofPlan law second.node planSecond).law := by
    rw [law_ofPlan, law_ofPlan]
  have held := entityOf_recordAll recorded
  obtain ⟨swapped, recordedToo⟩ : ∃ swapped, (empty (ofPlan law second.node planSecond).law).recordAll?
      ((ofPlan law second.node planSecond).predicatePairs catalog ++
        (ofPlan law first.node planFirst).predicatePairs catalog) = some swapped := by
    refine exists_recordAll_of_held ((stays_recordAll recorded).paired (paired_empty _))
      fun pair member => held pair ?_
    rw [List.mem_append] at member ⊢
    exact member.symm
  have around : jointCoverage catalog (ofPlan law second.node planSecond)
      (ofPlan law first.node planFirst) = jointCoverage catalog (ofPlan law first.node planFirst)
        (ofPlan law second.node planSecond) := by
    unfold jointCoverage
    rw [laws]
    exact coverage_congr fun node => by rw [List.mem_append, List.mem_append, or_comm]
  refine ⟨mates.placeSecond, mates.placeFirst, mates.plannedSecond, mates.plannedFirst,
    mates.unfilledSecond, mates.unfilledFirst, Matcher.empty 0, _, _, laws, unites.openRight,
    unites.openLeft, fun node inSecond inFirst => unites.apart node inFirst inSecond,
    ⟨_, _, (seededAt_ofPlan mates.plannedSecond).deepPairs?,
      (seededAt_ofPlan mates.plannedFirst).deepPairs?, ?_⟩, ?_, rfl, swapped, recordedToo, rfl⟩
  · rfl
  · rw [around]
    exact unites.inside

theorem Mates.gains (gains : relation.Gains later) (firm : relation.Firm) :
    Mates later catalog law first second planFirst planSecond :=
  { mates with
    plannedFirst := (plan?_gains gains firm (exists_cons_of_plan mates.plannedFirst).2).trans
      mates.plannedFirst
    plannedSecond := (plan?_gains gains firm (exists_cons_of_plan mates.plannedSecond).2).trans
      mates.plannedSecond }

omit mates in
/-- Where their entities were the same already, they were mates before. -/
theorem Mates.of_unmoved (mates : Mates later catalog law first second planFirst planSecond)
    (firm : relation.Firm) (unmovedFirst : relation.Unmoved later first.entity)
    (unmovedSecond : relation.Unmoved later second.entity) :
    Mates relation catalog law first second planFirst planSecond :=
  { mates with
    plannedFirst := (plan?_unmoved firm unmovedFirst).symm.trans mates.plannedFirst
    plannedSecond := (plan?_unmoved firm unmovedSecond).symm.trans mates.plannedSecond }

/-! ## What was built from mates -/

omit mates

theorem Mates.builtAt_merged (mates : Mates relation catalog law first second planFirst planSecond)
    (valid : catalog.Valid) {matcher : Matcher} {fills : Bool}
    (unites : matcher.Unites catalog (ofPlan law first.node planFirst)
      (ofPlan law second.node planSecond) merged fills) :
    merged.BuiltAt first ∧ merged.BuiltAt second := by
  have built {pair : Pair} := @builtAt_union _ _ _ _ _ _ _ unites
    ((Derived.seed mates.placeFirst mates.plannedFirst).grounded valid)
    ((Derived.seed mates.placeSecond mates.plannedSecond).grounded valid) pair
  exact ⟨built.2 (Or.inl (seededAt_ofPlan mates.plannedFirst).builtAt),
    built.2 (Or.inr (seededAt_ofPlan mates.plannedSecond).builtAt)⟩

/-- The part of a union that was built from the deep predicate of a pair is the seed there. -/
theorem BuiltAt.part (built : merged.BuiltAt pair) (valid : catalog.Valid)
    {part : Correspondence} (derived : part.Derived relation catalog)
    (single : part.deepPredicates.size = 1) (member : pair.node ∈ part.deepPredicates)
    (mapped : ∀ (node : LawNodeId) (entity : EntityId),
      catalog.isPredicate part.law node = true → part.entityOf[node]? = some entity →
        merged.entityOf[node]? = some entity)
    (place : (law, pair.node) ∈ PassState.seedPlaces catalog)
    (planned : (empty law).plan? relation catalog pair = some plan) :
    part = ofPlan law pair.node plan := by
  have grounded := derived.grounded valid
  obtain ⟨entity, held⟩ := grounded.held member
  have there := mapped pair.node entity (grounded.rooted _ member) held
  obtain rfl := Option.some.inj (built.2.symm.trans there)
  exact derived.eq_ofPlan valid ⟨single, member, held⟩ place planned

/-- A derived correspondence was built from two pairs at most. -/
theorem Derived.eq_or_eq_of_builtAt (derived : birth.Derived relation catalog) (valid : catalog.Valid)
    (few : catalog.FewDeep) (builtFirst : birth.BuiltAt first) (builtSecond : birth.BuiltAt second)
    (different : first.node ≠ second.node) (built : birth.BuiltAt pair) :
    pair = first ∨ pair = second := by
  have once {part : Correspondence} {one other : Pair} (single : part.deepPredicates.size = 1)
      (inOne : part.BuiltAt one) (inOther : part.BuiltAt other) : one = other :=
    SeededAt.pair_eq ⟨single, inOne.1, inOne.2⟩ ⟨single, inOther.1, inOther.2⟩
  cases derived with
  | seed place planned =>
    exact Or.inl (once (seededAt_ofPlan planned).single built builtFirst)
  | @union matcher left right merged fills derivedLeft derivedRight _ _ unites =>
    obtain ⟨singleLeft, singleRight⟩ :=
      Derived.single_of_unites few valid derivedLeft derivedRight unites
    have parts {pair : Pair} := @builtAt_union _ _ _ _ _ _ _ unites (derivedLeft.grounded valid)
      (derivedRight.grounded valid) pair
    rcases parts.1 builtFirst with firstLeft | firstRight
    · have secondRight := (parts.1 builtSecond).resolve_left fun secondLeft =>
        different (congrArg Pair.node (once singleLeft firstLeft secondLeft))
      rcases parts.1 built with inLeft | inRight
      · exact Or.inl (once singleLeft inLeft firstLeft)
      · exact Or.inr (once singleRight inRight secondRight)
    · have secondLeft := (parts.1 builtSecond).resolve_right fun secondRight =>
        different (congrArg Pair.node (once singleRight firstRight secondRight))
      rcases parts.1 built with inLeft | inRight
      · exact Or.inr (once singleLeft inLeft secondLeft)
      · exact Or.inl (once singleRight inRight firstRight)

theorem coincides_of_entityOf {map other : Correspondence} (law : other.law = map.law)
    (paired : map.Paired) (pairedToo : other.Paired) (formulas : other.formulas = map.formulas)
    (same : ∀ (node : LawNodeId) (entity : EntityId),
      map.entityOf[node]? = some entity ↔ other.entityOf[node]? = some entity) :
    map.Coincides other where
  law := law
  nodeOf := by
    refine Std.ExtTreeMap.ext_getElem? fun entity => Option.ext fun node => ?_
    exact (pairedToo entity node).trans ((same node entity).symm.trans (paired entity node).symm)
  entityOf := Std.ExtTreeMap.ext_getElem? fun node => Option.ext fun entity => (same node entity).symm
  formulas := formulas

/-- Mates have only one union. -/
theorem Mates.coincides (mates : Mates relation catalog law first second planFirst planSecond)
    (valid : catalog.Valid) (few : catalog.FewDeep) {matcher : Matcher} {fills : Bool}
    (unites : matcher.Unites catalog (ofPlan law first.node planFirst)
      (ofPlan law second.node planSecond) merged fills)
    (derived : birth.Derived relation catalog) (builtFirst : birth.BuiltAt first)
    (builtSecond : birth.BuiltAt second) : merged.Coincides birth := by
  have whole : merged.Derived relation catalog := .union
    (.seed mates.placeFirst mates.plannedFirst) (.seed mates.placeSecond mates.plannedSecond)
    mates.unfilledFirst mates.unfilledSecond unites
  have pairedFirst : (ofPlan law first.node planFirst).Paired :=
    ((Derived.seed mates.placeFirst mates.plannedFirst).grounded valid).paired
  have pairedSecond : (ofPlan law second.node planSecond).Paired :=
    ((Derived.seed mates.placeSecond mates.plannedSecond).grounded valid).paired
  have formulas : birth.formulas = merged.formulas := derived.formulas.trans whole.formulas.symm
  have pairedBirth := (derived.grounded valid).paired
  have pairedMerged := (whole.grounded valid).paired
  cases derived with
  | seed place planned =>
    have seeded := seededAt_ofPlan planned
    have node := seeded.node_eq builtFirst.1
    exact absurd (node.trans (seeded.node_eq builtSecond.1).symm) mates.different
  | @union other left right birth filled derivedLeft derivedRight _ _ unitesToo =>
    obtain ⟨singleLeft, singleRight⟩ :=
      Derived.single_of_unites few valid derivedLeft derivedRight unitesToo
    have pairedLeft := (derivedLeft.grounded valid).paired
    have pairedRight := (derivedRight.grounded valid).paired
    have fromLeft (node : LawNodeId) (entity : EntityId)
        (predicate : catalog.isPredicate left.law node = true)
        (held : left.entityOf[node]? = some entity) : birth.entityOf[node]? = some entity :=
      (entityOf_union unitesToo pairedLeft pairedRight).2 ⟨predicate, Or.inl held⟩
    have fromRight (node : LawNodeId) (entity : EntityId)
        (predicate : catalog.isPredicate right.law node = true)
        (held : right.entityOf[node]? = some entity) : birth.entityOf[node]? = some entity :=
      (entityOf_union unitesToo pairedLeft pairedRight).2
        ⟨unitesToo.law ▸ predicate, Or.inr held⟩
    have apartIn {part : Correspondence} (single : part.deepPredicates.size = 1)
        (inFirst : first.node ∈ part.deepPredicates) (inSecond : second.node ∈ part.deepPredicates) :
        False := mates.different (eq_of_size_eq_one single inFirst inSecond)
    rcases unitesToo.mem_deepPredicates.1 builtFirst.1 with inLeft | inRight
    · have inRight := (unitesToo.mem_deepPredicates.1 builtSecond.1).resolve_left
        (apartIn singleLeft inLeft)
      obtain rfl := builtFirst.part valid derivedLeft singleLeft inLeft fromLeft mates.placeFirst
        mates.plannedFirst
      obtain rfl := builtSecond.part valid derivedRight singleRight inRight fromRight
        mates.placeSecond mates.plannedSecond
      refine coincides_of_entityOf (unitesToo.law_merged.trans unites.law_merged.symm) pairedMerged
        pairedBirth formulas fun node entity => ?_
      rw [entityOf_union unites pairedFirst pairedSecond,
        entityOf_union unitesToo pairedFirst pairedSecond]
    · have inLeft := (unitesToo.mem_deepPredicates.1 builtSecond.1).resolve_right
        (apartIn singleRight inRight)
      obtain rfl := builtFirst.part valid derivedRight singleRight inRight fromRight
        mates.placeFirst mates.plannedFirst
      obtain rfl := builtSecond.part valid derivedLeft singleLeft inLeft fromLeft mates.placeSecond
        mates.plannedSecond
      refine coincides_of_entityOf (unitesToo.law_merged.trans
        (unites.law.trans unites.law_merged.symm)) pairedMerged pairedBirth formulas
        fun node entity => ?_
      rw [entityOf_union unites pairedFirst pairedSecond,
        entityOf_union unitesToo pairedSecond pairedFirst, unites.law, or_comm]

theorem Coincides.fills {map other : Correspondence} (same : map.Coincides other) :
    other.Fills catalog ↔ map.Fills catalog := by
  unfold Fills predicateNodes
  rw [same.law, same.entityOf]

end Correspondence

namespace PassState

open Correspondence

variable {catalog : Catalog} {state : PassState} {opening : Opening} {law : LawId} {first second : Pair}
  {planFirst planSecond : PairPlan}

/-- A seed in the matcher is the one that was planned at its pair. -/
theorem Traced.birth_of_seed (traced : state.Traced catalog opening) (valid : catalog.Valid)
    {id : MapId} {map : Correspondence} (found : state.matcher.get? id = some map) {pair : Pair}
    (seeded : map.SeededAt pair) {plan : PairPlan} (place : (law, pair.node) ∈ seedPlaces catalog)
    (planned : (empty law).plan? state.relation catalog pair = some plan) :
    (ofPlan law pair.node plan).Bears map.satisfied map ∧
      (map.satisfied = true ↔ (ofPlan law pair.node plan).Fills catalog) ∧
      (map.satisfied = true → opening.again →
        (ofPlan law pair.node plan).Retraces state.relation catalog
          (catalog.conclusions (ofPlan law pair.node plan).law)) := by
  obtain ⟨birth, derived, bears, fills, retraces⟩ := traced.stems id map found
  have single := bears.deepPredicates ▸ seeded.single
  have member := bears.deepPredicates ▸ seeded.member
  obtain ⟨entity, held⟩ := (derived.grounded valid).held member
  obtain rfl := Option.some.inj (seeded.held.symm.trans (bears.kept _ _ held))
  obtain rfl := derived.eq_ofPlan valid ⟨single, member, held⟩ place planned
  exact ⟨bears, fills, retraces⟩

/-- A correspondence was built from both pairs. -/
def Joined (state : PassState) (first second : Pair) : Prop :=
  ∃ id map, state.matcher.get? id = some map ∧ map.BuiltAt first ∧ map.BuiltAt second

theorem Joined.symm (joined : state.Joined first second) : state.Joined second first := by
  obtain ⟨id, map, found, builtFirst, builtSecond⟩ := joined
  exact ⟨id, map, found, builtSecond, builtFirst⟩

/-- A correspondence is there that stems from what was derived, or from the same made otherwise. -/
def Holds (state : PassState) (catalog : Catalog) (opening : Opening) (birth : Correspondence) :
    Prop :=
  ∃ id map other, state.matcher.get? id = some map ∧ other.Derived state.relation catalog ∧
    birth.Coincides other ∧ other.Bears map.satisfied map ∧
    (map.satisfied = true ↔ birth.Fills catalog) ∧ (map.satisfied = true → opening.again →
      birth.Retraces state.relation catalog (catalog.conclusions birth.law))

/-- Once a correspondence was built from the pairs of mates, it is their union. -/
theorem Traced.holds_of_joined (traced : state.Traced catalog opening) (valid : catalog.Valid)
    (few : catalog.FewDeep)
    (mates : Mates state.relation catalog law first second planFirst planSecond)
    (joined : state.Joined first second) {matcher : Matcher} {merged : Correspondence} {exact : Bool}
    (unites : matcher.Unites catalog (ofPlan law first.node planFirst)
      (ofPlan law second.node planSecond) merged exact) : state.Holds catalog opening merged := by
  obtain ⟨id, map, found, builtFirst, builtSecond⟩ := joined
  obtain ⟨birth, derived, bears, fills, retraces⟩ := traced.stems id map found
  have grounded := derived.grounded valid
  have same := mates.coincides valid few unites derived (bears.of_builtAt grounded builtFirst)
    (bears.of_builtAt grounded builtSecond)
  refine ⟨id, map, birth, found, derived, same, bears, fills.trans same.fills,
    fun satisfied again => ?_⟩
  have retraced := retraces satisfied again
  rw [same.law] at retraced
  exact retraced.congr same.symm

end PassState

end ConceptLaws
