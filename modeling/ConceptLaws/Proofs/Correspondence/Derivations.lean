import ConceptLaws.Proofs.Correspondence.Planning
import ConceptLaws.Proofs.Correspondence.Turns
import ConceptLaws.Proofs.Relation.Additions

/-! Plans do not change.
What is planned for an entity depends on the entity and on what it leads to, so it is the same after
other entities were edited or added. -/

namespace ConceptLaws

namespace Relation

variable {relation later : Relation} {id : EntityId}

/-- An entity is there, and it is still like it was, with all that it leads to. -/
structure Unmoved (relation later : Relation) (id : EntityId) : Prop where
  present : relation.contains id = true
  here : relation.Keeps later id
  above : ∀ other, relation.Leads id other → relation.Keeps later other

theorem Unmoved.parent (unmoved : relation.Unmoved later id) (forest : relation.Forest)
    {parent : EntityId} (link : relation.Links id parent) : relation.Unmoved later parent :=
  ⟨forest.grounded link, unmoved.above parent (.single link),
    fun other leads => unmoved.above other (.head link leads)⟩

theorem Unmoved.contains (unmoved : relation.Unmoved later id) : later.contains id = true := by
  obtain ⟨entity, found⟩ := contains_iff.1 unmoved.present
  obtain ⟨after, held, -⟩ := unmoved.here entity found
  exact contains_iff.2 ⟨after, held⟩

theorem Extends.unmoved (wider : relation.Extends later) (present : relation.contains id = true) :
    relation.Unmoved later id :=
  ⟨present, wider.keeps id, fun other _ => wider.keeps other⟩

theorem Unmoved.trans {middle : Relation} (unmoved : relation.Unmoved middle id)
    (wider : middle.Extends later) : relation.Unmoved later id :=
  ⟨unmoved.present, unmoved.here.trans (wider.keeps id),
    fun other leads => (unmoved.above other leads).trans (wider.keeps other)⟩

end Relation

theorem LawNode.accepts_eq_of_alike {entity after : Entity} (alike : entity.Alike after)
    (accepted : entity.isTentative = false) (node : LawNode) (catalog : Catalog) :
    node.accepts catalog after = node.accepts catalog entity := by
  unfold accepts
  rw [alike.accepted accepted, accepted, alike.concept, alike.value]

namespace Correspondence

variable {map : Correspondence} {catalog : Catalog} {relation later : Relation}

theorem planParents_congr {planPair other : PairPlan → Pair → Option PairPlan}
    {entity after : Entity} (alike : entity.Alike after) (node : LawNode) (swapped : Bool)
    (same : ∀ parent ∈ entity.parents, ∀ plan parentNode,
      planPair plan ⟨parent, parentNode⟩ = other plan ⟨parent, parentNode⟩) (plan : PairPlan) :
    planParents planPair entity node swapped plan = planParents other after node swapped plan := by
  have sides (side : Side) (plan : PairPlan) : planSide planPair entity node swapped plan side =
      planSide other after node swapped plan side := by
    unfold planSide
    rw [alike.parent]
    split
    · rfl
    · split
      · rfl
      · rename_i parent leads
        refine same parent ?_ plan _
        unfold Entity.parents
        rw [List.mem_append, Option.mem_toList, Option.mem_toList]
        cases towards : side.oriented swapped with
        | head =>
          rw [towards] at leads
          exact Or.inl leads
        | reference =>
          rw [towards] at leads
          exact Or.inr leads
  rw [planParents_eq, planParents_eq]
  congr 1
  funext plan side
  exact sides side plan

/-- An entity that is unmoved is planned as it was. -/
theorem planPair_unmoved (firm : relation.Firm) (depth : Nat) :
    ∀ (plan : PairPlan) {pair : Pair}, relation.Unmoved later pair.entity →
      map.planPair later catalog depth plan pair =
        map.planPair relation catalog depth plan pair := by
  induction depth with
  | zero => exact fun _ _ _ => rfl
  | succ depth ih =>
    intro plan pair unmoved
    obtain ⟨entity, found⟩ := Relation.contains_iff.1 unmoved.present
    obtain ⟨after, held, alike⟩ := unmoved.here entity found
    have accepts := LawNode.accepts_eq_of_alike alike (firm.accepted _ entity found)
    have above : ∀ parent ∈ entity.parents, ∀ plan parentNode,
        map.planPair relation catalog depth plan ⟨parent, parentNode⟩ =
          map.planPair later catalog depth plan ⟨parent, parentNode⟩ :=
      fun parent linked plan parentNode =>
        (@ih plan ⟨parent, parentNode⟩ (unmoved.parent firm.forest ⟨entity, found, linked⟩)).symm
    have parents (node : LawNode) (swapped : Bool) := planParents_congr alike node swapped above
    unfold planPair
    rw [found, held]
    cases catalog.lawNode? map.law pair.node with
    | none => rfl
    | some node => simp only [accepts, alike.concept, parents]

theorem plan?_unmoved (firm : relation.Firm) {pair : Pair}
    (unmoved : relation.Unmoved later pair.entity) :
    map.plan? later catalog pair = map.plan? relation catalog pair :=
  planPair_unmoved firm _ [] unmoved

/-- An entity is planned as it was before others were added. -/
theorem plan?_gains (gains : relation.Gains later) (firm : relation.Firm) {pair : Pair}
    (present : relation.contains pair.entity = true) :
    map.plan? later catalog pair = map.plan? relation catalog pair :=
  plan?_unmoved firm (gains.wider.unmoved present)

end Correspondence

end ConceptLaws

/-! What can be derived.
Whatever the order in which a pass looks at entities and merges correspondences, each one that it
makes is a seed or a union of such that fill no predicate set. A relation is concluded when all that
can be derived from it retraces its conclusions. A pass over such a relation appends nothing. -/

namespace ConceptLaws

/-! ## Unions -/

namespace Correspondence

variable {map left right merged : Correspondence} {catalog : Catalog} {relation later : Relation}

theorem mem_predicatePairs (paired : map.Paired) {pair : Pair} :
    pair ∈ map.predicatePairs catalog ↔ map.entityOf[pair.node]? = some pair.entity ∧
      catalog.isPredicate map.law pair.node = true := by
  unfold predicatePairs
  rw [List.mem_filter, mem_pairs, paired pair.entity pair.node]

theorem mem_predicateNodes_iff {node : LawNodeId} : node ∈ map.predicateNodes catalog ↔
    (∃ entity, map.entityOf[node]? = some entity) ∧
      catalog.isPredicate map.law node = true := by
  unfold predicateNodes
  rw [List.mem_filter, Std.ExtTreeMap.mem_keys, Std.ExtTreeMap.mem_iff_isSome_getElem?,
    Option.isSome_iff_exists]

/-- What fills a predicate set maps the nodes of that set. -/
theorem exists_set_of_fills (fills : map.Fills catalog) :
    ∃ law ∈ catalog.laws, law.id = map.law ∧ ∃ set ∈ law.predicateSets,
      ∀ node ∈ set, ∃ entity, map.entityOf[node]? = some entity := by
  unfold Fills Catalog.coverage at fills
  cases found : catalog.law? map.law with
  | none =>
    rw [found] at fills
    cases fills
  | some law =>
    rw [found] at fills
    obtain ⟨listed, named⟩ := Catalog.law?_eq_some found
    refine ⟨law, listed, named, _, Law.coverage_eq_exact_iff.1 fills, fun node member => ?_⟩
    rw [Std.ExtTreeSet.mem_ofList, List.contains_iff_mem] at member
    exact (mem_predicateNodes_iff.1 member).1

theorem coverage_congr {law : LawId} {nodes others : List LawNodeId}
    (same : ∀ node, node ∈ nodes ↔ node ∈ others) :
    catalog.coverage law nodes = catalog.coverage law others := by
  have sets : Std.ExtTreeSet.ofList nodes = Std.ExtTreeSet.ofList others :=
    Std.ExtTreeSet.ext_mem fun node => by simp [same]
  unfold Catalog.coverage
  rw [sets]

/-- A union maps what one of its parts does, as far as it is a predicate. -/
theorem entityOf_union {matcher : Matcher} {fills : Bool}
    (unites : matcher.Unites catalog left right merged fills) (pairedLeft : left.Paired)
    (pairedRight : right.Paired) {node : LawNodeId} {entity : EntityId} :
    merged.entityOf[node]? = some entity ↔ catalog.isPredicate left.law node = true ∧
      (left.entityOf[node]? = some entity ∨ right.entityOf[node]? = some entity) := by
  have listed : (⟨entity, node⟩ : Pair) ∈
      left.predicatePairs catalog ++ right.predicatePairs catalog ↔
        catalog.isPredicate left.law node = true ∧
          (left.entityOf[node]? = some entity ∨ right.entityOf[node]? = some entity) := by
    rw [List.mem_append, mem_predicatePairs pairedLeft, mem_predicatePairs pairedRight, unites.law,
      ← or_and_right, and_comm]
  rw [← listed]
  exact ⟨mapped_union unites, unites.entityOf_merged⟩

/-- What a correspondence was built from is mapped. -/
theorem Grounded.held (grounded : map.Grounded catalog relation) {deep : LawNodeId}
    (built : deep ∈ map.deepPredicates) : ∃ entity, map.entityOf[deep]? = some entity := by
  obtain ⟨-, place, -, -, -, holds, -⟩ := grounded.fits deep built deep .self
  exact ⟨place, holds⟩

theorem SeededAt.builtAt {pair : Pair} (seeded : map.SeededAt pair) : map.BuiltAt pair :=
  ⟨seeded.member, seeded.held⟩

/-- A union was built from what its parts were built from. -/
theorem builtAt_union {matcher : Matcher} {fills : Bool}
    (unites : matcher.Unites catalog left right merged fills)
    (groundedLeft : left.Grounded catalog relation) (groundedRight : right.Grounded catalog relation)
    {pair : Pair} : merged.BuiltAt pair ↔ left.BuiltAt pair ∨ right.BuiltAt pair := by
  have maps {entity : EntityId} :=
    @entityOf_union left right merged catalog matcher fills unites groundedLeft.paired
      groundedRight.paired pair.node entity
  constructor
  · intro built
    rcases unites.mem_deepPredicates.1 built.1 with inLeft | inRight
    · obtain ⟨entity, held⟩ := groundedLeft.held inLeft
      have mapped := maps.2 ⟨groundedLeft.rooted _ inLeft, Or.inl held⟩
      obtain rfl := Option.some.inj (built.2.symm.trans mapped)
      exact Or.inl ⟨inLeft, held⟩
    · obtain ⟨entity, held⟩ := groundedRight.held inRight
      have mapped := maps.2 ⟨unites.law ▸ groundedRight.rooted _ inRight, Or.inr held⟩
      obtain rfl := Option.some.inj (built.2.symm.trans mapped)
      exact Or.inr ⟨inRight, held⟩
  · rintro (⟨inLeft, held⟩ | ⟨inRight, held⟩)
    · exact ⟨unites.mem_deepPredicates.2 (Or.inl inLeft),
        maps.2 ⟨groundedLeft.rooted _ inLeft, Or.inl held⟩⟩
    · exact ⟨unites.mem_deepPredicates.2 (Or.inr inRight),
        maps.2 ⟨unites.law ▸ groundedRight.rooted _ inRight, Or.inr held⟩⟩

/-- A union fills a predicate set if its parts do so together. -/
theorem fills_union {matcher : Matcher} {fills : Bool}
    (unites : matcher.Unites catalog left right merged fills) (pairedLeft : left.Paired)
    (pairedRight : right.Paired) : fills = true ↔ merged.Fills catalog := by
  have same : jointCoverage catalog left right =
      catalog.coverage merged.law (merged.predicateNodes catalog) := by
    unfold jointCoverage
    rw [unites.law_merged]
    refine coverage_congr fun node => ?_
    rw [List.mem_append, mem_predicateNodes_iff, mem_predicateNodes_iff, mem_predicateNodes_iff,
      unites.law, unites.law_merged, ← or_and_right, ← exists_or]
    constructor
    · rintro ⟨⟨entity, held⟩, predicate⟩
      exact ⟨⟨entity, (entityOf_union unites pairedLeft pairedRight).2 ⟨predicate, held⟩⟩, predicate⟩
    · rintro ⟨⟨entity, held⟩, predicate⟩
      exact ⟨⟨entity, ((entityOf_union unites pairedLeft pairedRight).1 held).2⟩, predicate⟩
  rw [unites.exact, same, beq_iff_eq]
  rfl

/-- Whether correspondences are united depends on their pairs and deep predicates only. -/
theorem unites_congr {matcher : Matcher} {leftMap rightMap : Correspondence} {fills : Bool}
    (openLeft : left.satisfied = false) (openRight : right.satisfied = false)
    (sameLeft : left.Coincides leftMap) (sameRight : right.Coincides rightMap)
    (deepLeft : leftMap.deepPredicates = left.deepPredicates)
    (deepRight : rightMap.deepPredicates = right.deepPredicates)
    (unites : matcher.Unites catalog leftMap rightMap merged fills) :
    matcher.Unites catalog left right merged fills := by
  obtain ⟨lawLeft, nodesLeft, entitiesLeft, -⟩ := sameLeft
  obtain ⟨lawRight, nodesRight, entitiesRight, -⟩ := sameRight
  obtain ⟨law, -, -, apart, uncovered, inside, exact_, recorded⟩ := unites
  unfold jointCoverage predicateNodes at inside exact_
  unfold predicatePairs pairs at recorded
  unfold deepPairs? at uncovered
  rw [lawLeft, entitiesLeft, entitiesRight, lawRight] at inside exact_
  rw [lawLeft, lawRight, nodesLeft, nodesRight, deepLeft, deepRight] at recorded
  rw [deepLeft, deepRight, entitiesLeft, entitiesRight] at uncovered
  rw [deepLeft, deepRight] at apart
  exact ⟨lawRight.symm.trans (law.trans lawLeft), openLeft, openRight, apart, uncovered, inside,
    exact_, recorded⟩

/-! ## Derivations -/

/-- A correspondence that matching may come to. -/
inductive Derived (relation : Relation) (catalog : Catalog) : Correspondence → Prop
  | seed {law : LawId} {pair : Pair} {plan : PairPlan}
      (place : (law, pair.node) ∈ PassState.seedPlaces catalog)
      (planned : (empty law).plan? relation catalog pair = some plan) :
      Derived relation catalog (ofPlan law pair.node plan)
  | union {matcher : Matcher} {left right merged : Correspondence} {fills : Bool}
      (derivedLeft : Derived relation catalog left) (derivedRight : Derived relation catalog right)
      (unfilledLeft : ¬ left.Fills catalog) (unfilledRight : ¬ right.Fills catalog)
      (unites : matcher.Unites catalog left right merged fills) : Derived relation catalog merged

variable {birth : Correspondence}

theorem Derived.open_ (derived : birth.Derived relation catalog) : birth.satisfied = false := by
  cases derived with
  | seed place planned => exact satisfied_ofPlan _ _ _
  | union derivedLeft derivedRight unfilledLeft unfilledRight unites => exact unites.satisfied_merged

theorem Derived.grounded (derived : birth.Derived relation catalog) (valid : catalog.Valid) :
    birth.Grounded catalog relation := by
  induction derived with
  | seed place planned =>
    exact grounded_ofPlan (PassState.isPredicate_of_mem_seedPlaces valid place) planned
  | union _ _ _ _ unites ihLeft ihRight => exact grounded_union valid ihLeft ihRight unites

/-- What was derived is derived wherever its deep predicates are planned alike. -/
theorem Derived.of_plans (derived : birth.Derived relation catalog) (valid : catalog.Valid)
    (plans : ∀ (law : LawId) (pair : Pair) (plan : PairPlan), birth.BuiltAt pair →
      (empty law).plan? relation catalog pair = some plan →
        (empty law).plan? later catalog pair = some plan) : birth.Derived later catalog := by
  induction derived with
  | seed place planned => exact .seed place (plans _ _ _ (seededAt_ofPlan planned).builtAt planned)
  | union derivedLeft derivedRight unfilledLeft unfilledRight unites ihLeft ihRight =>
    have built {pair : Pair} := @builtAt_union _ _ _ _ _ _ _ unites (derivedLeft.grounded valid)
      (derivedRight.grounded valid) pair
    refine .union (ihLeft fun law pair plan inLeft => ?_) (ihRight fun law pair plan inRight => ?_)
      unfilledLeft unfilledRight unites
    · exact plans law pair plan (built.2 (Or.inl inLeft))
    · exact plans law pair plan (built.2 (Or.inr inRight))

theorem Derived.unmoved (derived : birth.Derived relation catalog) (valid : catalog.Valid)
    (firm : relation.Firm)
    (unmoved : ∀ pair, birth.BuiltAt pair → relation.Unmoved later pair.entity) :
    birth.Derived later catalog :=
  derived.of_plans valid fun _ pair _ built planned =>
    (plan?_unmoved firm (unmoved pair built)).trans planned

theorem Derived.of_unmoved (derived : birth.Derived later catalog) (valid : catalog.Valid)
    (firm : relation.Firm)
    (unmoved : ∀ pair, birth.BuiltAt pair → relation.Unmoved later pair.entity) :
    birth.Derived relation catalog :=
  derived.of_plans valid fun _ pair _ built planned =>
    (plan?_unmoved firm (unmoved pair built)).symm.trans planned

theorem Derived.gains (derived : birth.Derived relation catalog) (valid : catalog.Valid)
    (gains : relation.Gains later) (firm : relation.Firm) : birth.Derived later catalog :=
  derived.of_plans valid fun _ _ _ _ planned =>
    (plan?_gains gains firm (exists_cons_of_plan planned).2).trans planned

/-- What can be derived does not depend on what the entities are otherwise like. -/
theorem Derived.of_sameEntities (derived : birth.Derived later catalog) (valid : catalog.Valid)
    (same : relation.SameEntities later) (firm : relation.Firm) : birth.Derived relation catalog :=
  derived.of_plans valid fun _ _ _ _ planned =>
    (plan?_gains same.gains firm (same.fewer _ (exists_cons_of_plan planned).2)).symm.trans planned

theorem Derived.slim (derived : birth.Derived relation catalog) (valid : catalog.Valid) :
    birth.Slim catalog := by
  induction derived with
  | seed place planned => exact slim_ofPlan planned
  | union derivedLeft derivedRight _ _ unites ihLeft ihRight =>
    exact slim_union unites ihLeft ihRight (derivedLeft.grounded valid).paired
      (derivedRight.grounded valid).paired

theorem Derived.built (derived : birth.Derived relation catalog) :
    ∃ deep, deep ∈ birth.deepPredicates := by
  induction derived with
  | seed place planned => exact ⟨_, (seededAt_ofPlan planned).member⟩
  | union _ _ _ _ unites ihLeft _ =>
    obtain ⟨deep, built⟩ := ihLeft
    exact ⟨deep, unites.mem_deepPredicates.2 (Or.inl built)⟩

theorem formulas_recordAll {pairs : List Pair} : ∀ {map later : Correspondence},
    map.recordAll? pairs = some later → later.formulas = map.formulas := by
  induction pairs with
  | nil =>
    intro map later recorded
    rw [Option.some.inj recorded]
  | cons first rest ih =>
    intro map later recorded
    unfold recordAll? at recorded
    split at recorded
    · cases recorded
    · exact (ih recorded).trans (formulas_foldl_record [first] map)

theorem Derived.formulas (derived : birth.Derived relation catalog) : birth.formulas = ∅ := by
  cases derived with
  | seed place planned => exact formulas_foldl_record _ _
  | union derivedLeft derivedRight unfilledLeft unfilledRight unites =>
    obtain ⟨base, recorded, rfl⟩ := unites.recorded
    exact formulas_recordAll recorded

/-- All that a derived correspondence maps is in the relation. -/
theorem Derived.within (derived : birth.Derived relation catalog) (valid : catalog.Valid) :
    birth.Within relation where
  mapped := by
    intro node entity held
    obtain ⟨deep, built, needs⟩ := derived.slim valid node entity held
    obtain ⟨_, place, other, _, -, holds, found, -⟩ :=
      (derived.grounded valid).fits deep built node needs
    obtain rfl := Option.some.inj (held.symm.trans holds)
    exact Relation.contains_iff.2 ⟨other, found⟩
  owned := by
    intro node formula held
    rw [derived.formulas] at held
    simp at held

end Correspondence

namespace PassState

variable {context : PassContext} {catalog : Catalog} {fresh : Pair → Prop} {state later : PassState}

/-- Every correspondence was derived, is satisfied if it filled a predicate set when it was made, and
then has a property. -/
def Stems (state : PassState) (catalog : Catalog) (concluded : Correspondence → Prop) : Prop :=
  ∀ id map, state.matcher.get? id = some map → ∃ birth : Correspondence,
    birth.Derived state.relation catalog ∧ birth.Bears map.satisfied map ∧
      (map.satisfied = true ↔ birth.Fills catalog) ∧ (map.satisfied = true → concluded birth)

/-- What a turn makes is derived from the relation. -/
theorem Stems.begets {concluded : Correspondence → Prop}
    (stems : state.Stems context.catalog concluded) (valid : context.catalog.Valid)
    {spent : Matcher} (paid : state.matcher.spend? = some spent) {birth : Correspondence}
    {fills : Bool} (begets : Begets context fresh state.relation spent birth fills) :
    birth.Derived state.relation context.catalog ∧ (fills = true ↔ birth.Fills context.catalog) := by
  cases begets with
  | seed place allowed planned => exact ⟨.seed place planned, decide_eq_true_iff⟩
  | @union leftId rightId left right merged exact foundLeft foundRight unites =>
    obtain ⟨-, rfl⟩ := Matcher.spend?_eq_some paid
    obtain ⟨birthLeft, derivedLeft, bearsLeft, fillsLeft, -⟩ := stems leftId left foundLeft
    obtain ⟨birthRight, derivedRight, bearsRight, fillsRight, -⟩ := stems rightId right foundRight
    rw [unites.openLeft] at bearsLeft fillsLeft
    rw [unites.openRight] at bearsRight fillsRight
    have asBorn := Correspondence.unites_congr derivedLeft.open_ derivedRight.open_
      (bearsLeft.coincides rfl) (bearsRight.coincides rfl) bearsLeft.deepPredicates
      bearsRight.deepPredicates unites
    refine ⟨.union derivedLeft derivedRight (by simpa using fillsLeft) (by simpa using fillsRight)
      asBorn, Correspondence.fills_union asBorn (derivedLeft.grounded valid).paired
        (derivedRight.grounded valid).paired⟩

/-- Correspondences stem from the larger relation with what was made from it. -/
theorem Stems.make {concluded concludedToo : Correspondence → Prop}
    (stems : state.Stems catalog concluded) (valid : catalog.Valid)
    (gains : state.relation.Gains later.relation) (firm : state.relation.Firm) {birth : Correspondence} {fills : Bool}
    (makes : state.Makes later birth fills) (derived : birth.Derived state.relation catalog)
    (filled : fills = true ↔ birth.Fills catalog)
    (kept : ∀ other, concluded other → concludedToo other)
    (new : fills = true → concludedToo birth) : later.Stems catalog concludedToo := by
  intro id map found
  rcases makes.of_get? found with ⟨-, -, bears⟩ | before
  · have settled := bears.satisfied
    rw [← settled] at bears filled new
    exact ⟨birth, derived.gains valid gains firm, bears, filled, new⟩
  · obtain ⟨other, derivedOther, bears, filledOther, concludes⟩ := stems id map before
    exact ⟨other, derivedOther.gains valid gains firm, bears, filledOther,
      fun satisfied => kept other (concludes satisfied)⟩

end PassState

/-! ## Concluded relations -/

/-- All that can be derived and fills a predicate set retraces its conclusions. -/
def Relation.Concluded (relation : Relation) (catalog : Catalog) : Prop :=
  ∀ birth : Correspondence, birth.Derived relation catalog → birth.Fills catalog →
    birth.Retraces relation catalog (catalog.conclusions birth.law)

theorem Relation.Concluded.of_sameEntities {relation later : Relation} {catalog : Catalog}
    (concluded : relation.Concluded catalog) (valid : catalog.Valid)
    (same : relation.SameEntities later) (firm : relation.Firm) : later.Concluded catalog :=
  fun birth derived filled =>
    (concluded birth (derived.of_sameEntities valid same firm) filled).gains same.gains

namespace PassState

variable {context : PassContext} {catalog : Catalog} {fresh : Pair → Prop} {state later : PassState}
  {relation : Relation}

/-- Nothing was appended so far. -/
structure Rests (state : PassState) (relation : Relation) (catalog : Catalog) : Prop where
  same : relation.SameEntities state.relation
  idle : state.outcome.appended = []
  stems : state.Stems catalog fun _ => True

/-- In a concluded relation a turn makes correspondences, but no entity. -/
theorem Rests.turn (rests : state.Rests relation context.catalog) (valid : context.catalog.Valid)
    (firm : relation.Firm) (concluded : relation.Concluded context.catalog)
    (turn : Turn context fresh state later) : later.Rests relation context.catalog := by
  cases turn with
  | check paid =>
    obtain ⟨-, rfl⟩ := Matcher.spend?_eq_some paid
    exact ⟨rests.same, rests.idle, rests.stems⟩
  | @take spent taken birth fills shared paid begets takes checked =>
    have makes := @makes_settleTaken context state spent taken birth fills shared paid begets.open_
      takes checked
    obtain ⟨derived, filled⟩ := rests.stems.begets valid paid begets
    have firmHere := rests.same.firm firm
    have rest : state.relation.SameEntities
          (state.settleTaken context taken spent.nextMap fills).relation ∧
        (state.settleTaken context taken spent.nextMap fills).outcome.appended =
          state.outcome.appended := by
      unfold settleTaken
      cases fills with
      | false => exact ⟨state.relation.sameEntities_refl, rfl⟩
      | true =>
        have retraces := concluded birth (derived.of_sameEntities valid rests.same firm) (filled.1 rfl)
        have again : Correspondence.Retraces relation context.catalog
            { birth with id := spent.nextMap, intersections := shared }
            (context.catalog.conclusions birth.law) := retraces.congr ⟨rfl, rfl, rfl, rfl⟩
        exact @append_idle context { state with matcher := taken } spent.nextMap relation _ again
          ((takes.found _).trans (if_pos rfl)) rfl begets.open_ rests.same.gains
    exact ⟨rests.same.trans rest.1, rest.2.trans rests.idle,
      rests.stems.make valid rest.1.gains firmHere makes derived filled (fun _ _ => trivial)
        fun _ => trivial⟩

end PassState

/-- A pass that starts without correspondences appends nothing to a concluded relation. -/
theorem Relation.Concluded.idle {relation : Relation} {catalog : Catalog}
    (concluded : relation.Concluded catalog) (valid : catalog.Valid) (firm : relation.Firm)
    {matcher : Matcher} {options : PassOptions} (blank : (matcher.prepare options).maps = ∅)
    (dirty : Std.ExtTreeSet EntityId) :
    (matcher.evaluate relation catalog options dirty).outcome.appended = [] ∧
      relation.SameEntities (matcher.evaluate relation catalog options dirty).relation := by
  have start : PassState.Rests ⟨matcher.prepare options, relation, .empty⟩ relation catalog := by
    refine ⟨relation.sameEntities_refl, rfl, fun id map found => ?_⟩
    have nothing : (matcher.prepare options).get? id = none := by
      unfold Matcher.get?
      rw [blank]
      exact Std.ExtTreeMap.getElem?_empty
    cases nothing.symm.trans found
  have visits (state : PassState) (entity : EntityId) (rests : state.Rests relation catalog) :
      (state.visit ⟨catalog, options.tentative⟩ options.tag entity).Rests relation catalog :=
    @PassState.keeps_visit ⟨catalog, options.tentative⟩ (PassState.Rests · relation catalog)
      (fun _ _ before turn => before.turn valid firm concluded turn)
      (fun _ _ _ before => ⟨before.same, before.idle, before.stems⟩) options.tag state rests entity
  have rests : (matcher.passed relation catalog options dirty).Rests relation catalog :=
    PassState.keeps_rounds visits dirty _ ∅ start
  refine ⟨rests.idle, ?_⟩
  rw [Matcher.relation_evaluate]
  exact rests.same.trans (Relation.sameEntities_recomputeDeep _)

end ConceptLaws
