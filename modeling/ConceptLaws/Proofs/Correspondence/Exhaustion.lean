import ConceptLaws.Proofs.Correspondence.Coupling

/-! Exhausted passes.
A pass that has checks left in the end has looked at every accepted entity, and has sown there whatever
could be sown. Then nothing is left to derive that does not retrace its conclusions, if no predicate
set has more than two deep predicates. -/

namespace ConceptLaws

namespace PassState

open Correspondence

variable {context : PassContext} {catalog : Catalog} {fresh : Pair → Prop} {state later : PassState}
  {opening : Opening} {entity : EntityId}

/-- Whatever can be sown at an entity was sown. -/
def Tried (state : PassState) (catalog : Catalog) (entity : EntityId) : Prop :=
  ∀ place ∈ seedPlaces catalog, ∀ plan,
    (empty place.1).plan? state.relation catalog ⟨entity, place.2⟩ = some plan →
      state.matcher.Seeded ⟨entity, place.2⟩

theorem Tried.enlarges (tried : state.Tried catalog entity)
    (present : state.relation.contains entity = true) (firm : state.relation.Firm)
    (enlarges : Enlarges catalog opening fresh state later) : later.Tried catalog entity := by
  intro place listed plan planned
  rw [plan?_gains enlarges.gains firm present] at planned
  exact enlarges.seeded (tried place listed plan planned)

/-! ## Places -/

/-- Trying an entity spends a check, as long as there is one. -/
theorem checks_lt_checkSeed (context : PassContext) (entity : EntityId)
    {progress : List MapId × PassState} (place : LawId × LawNodeId) (spare : progress.2.Spare) :
    progress.2.matcher.checks < (checkSeed context entity progress place).2.matcher.checks := by
  obtain ⟨enough, paid⟩ := spare.exists_spend
  rcases checkSeed_cases context entity progress place with
    ⟨unpaid, -⟩ | ⟨spent, paid, ⟨-, same⟩ | ⟨plan, -, same⟩⟩
  · cases unpaid.symm.trans paid
  · obtain ⟨-, rfl⟩ := Matcher.spend?_eq_some paid
    rw [same]
    exact Nat.lt_succ_self _
  · have makes := @makes_sow context progress.2 spent paid place.1 place.2 plan
      (decide ((ofPlan place.1 place.2 plan).Fills context.catalog))
    have develops : Turns context nowhere _ _ :=
      turns_develop context progress.2 spent place.1 place.2 plan
    have checks := develops.advances.checks
    rw [makes.checks, ← same] at checks
    exact checks

theorem advances_foldl_visit (context : PassContext) (tag : String) (entities : List EntityId)
    (state : PassState) : state.Advances (entities.foldl (visit context tag) state) := by
  induction entities generalizing state with
  | nil => exact state.advances_refl
  | cons first rest ih => exact (advances_visit context tag state first).trans (ih _)

/-- Looking at an entity spends a check, if there is any place to try it at. -/
theorem checks_lt_visit (tag : String) (some_ : seedPlaces context.catalog ≠ []) (spare : state.Spare)
    (entity : EntityId) : state.matcher.checks < (state.visit context tag entity).matcher.checks := by
  obtain ⟨first, rest, places⟩ := List.exists_cons_of_ne_nil some_
  have listed : ∀ place ∈ rest, place ∈ seedPlaces context.catalog := fun place member => by
    rw [places]
    exact List.mem_cons_of_mem first member
  have here : state.matcher.checks <
      (checkSeed context entity ([], state.noted tag entity) first).2.matcher.checks :=
    @checks_lt_checkSeed context entity ([], state.noted tag entity) first spare
  have same : state.visit context tag entity = (rest.foldl (checkSeed context entity)
      (checkSeed context entity ([], state.noted tag entity) first)).2 := by
    change ((seedPlaces context.catalog).foldl (checkSeed context entity) _).2 = _
    rw [places]
    rfl
  rw [same]
  exact Nat.lt_of_lt_of_le here (turns_foldl_checkSeed entity listed _).advances.checks

theorem checks_lt_foldl_visit (tag : String) (some_ : seedPlaces context.catalog ≠ [])
    {entities : List EntityId} (others : entities ≠ [])
    (spare : state.Spare) : state.matcher.checks <
      (entities.foldl (visit context tag) state).matcher.checks := by
  obtain ⟨first, rest, rfl⟩ := List.exists_cons_of_ne_nil others
  exact Nat.lt_of_lt_of_le (checks_lt_visit tag some_ spare first)
    (advances_foldl_visit context tag rest _).checks

section Places

variable {ending : Ending context.catalog} (valid : context.catalog.Valid)
  (plain : context.tentative = false)

include valid plain

/-- After a place was tried, a seed is there if one could be sown. -/
theorem Traced.seeded_checkSeed {progress : List MapId × PassState} {place : LawId × LawNodeId}
    (traced : progress.2.Traced context.catalog ending.toOpening)
    (listed : place ∈ seedPlaces context.catalog) {plan : PairPlan}
    (planned : (empty place.1).plan? progress.2.relation context.catalog ⟨entity, place.2⟩ = some plan)
    (heads : (checkSeed context entity progress place).2.Heads ending) (spare : progress.2.Spare) :
    (checkSeed context entity progress place).2.matcher.Seeded ⟨entity, place.2⟩ := by
  have enlarges := (turns_checkSeed entity progress listed).enlarges valid plain traced heads
  rcases checkSeed_cases context entity progress place with
    ⟨unpaid, -⟩ | ⟨spent, paid, ⟨reason, same⟩ | ⟨other, plannedToo, same⟩⟩
  · obtain ⟨enough, paid⟩ := spare.exists_spend
    cases unpaid.symm.trans paid
  · rcases reason with seeded | unplanned
    · obtain ⟨-, rfl⟩ := Matcher.spend?_eq_some paid
      exact enlarges.seeded (traced.seeded_of_isSeeded seeded)
    · cases unplanned.symm.trans planned
  · have turn : Turn context (fun pair => pair = ⟨entity, place.2⟩) progress.2 _ :=
      turn_sow progress.2 paid listed rfl plannedToo
    have rest : Turns context nowhere _ _ :=
      turns_develop context progress.2 spent place.1 place.2 other
    obtain ⟨made, found, -, bears⟩ := (@makes_sow context progress.2 spent paid place.1 place.2 other
      (decide ((ofPlan place.1 place.2 other).Fills context.catalog))).found
    rw [← same] at rest
    have sows := turn.enlarges valid plain traced (rest.advances.heads heads)
    obtain ⟨-, rfl⟩ := Matcher.spend?_eq_some paid
    exact (rest.enlarges valid plain sows.traced heads).seeded
      ⟨_, made, found, bears.seededAt (seededAt_ofPlan plannedToo)⟩

variable {places : List (LawId × LawNodeId)}
  (listed : ∀ place ∈ places, place ∈ seedPlaces context.catalog)

include listed

theorem Coupled.foldl_checkSeed : ∀ {progress : List MapId × PassState},
    progress.2.Coupled context.catalog → progress.2.Traced context.catalog ending.toOpening →
      (places.foldl (PassState.checkSeed context entity) progress).2.Heads ending →
      (places.foldl (PassState.checkSeed context entity) progress).2.Spare →
      (places.foldl (PassState.checkSeed context entity) progress).2.Coupled context.catalog := by
  induction places with
  | nil => exact fun coupled _ _ _ => coupled
  | cons first rest ih =>
    intro progress coupled traced heads spare
    have here := listed first List.mem_cons_self
    have others := fun place member => listed place (List.mem_cons_of_mem first member)
    have further := (turns_foldl_checkSeed entity others
      (PassState.checkSeed context entity progress first)).advances
    have head := (turns_checkSeed entity progress here).enlarges valid plain traced
      (further.heads heads)
    exact ih others (coupled.checkSeed valid plain traced here (further.heads heads)
      (further.spare spare)) head.traced heads spare

/-- By induction on the places, up to the one in question. -/
theorem Traced.seeded_foldl_checkSeed {place : LawId × LawNodeId} (member : place ∈ places)
    {plan : PairPlan} : ∀ {progress : List MapId × PassState},
    progress.2.Traced context.catalog ending.toOpening →
      (empty place.1).plan? progress.2.relation context.catalog ⟨entity, place.2⟩ = some plan →
      (places.foldl (PassState.checkSeed context entity) progress).2.Heads ending →
      (places.foldl (PassState.checkSeed context entity) progress).2.Spare →
      (places.foldl (PassState.checkSeed context entity) progress).2.matcher.Seeded
        ⟨entity, place.2⟩ := by
  induction places with
  | nil => simp at member
  | cons first rest ih =>
    intro progress traced planned heads spare
    have here := listed first List.mem_cons_self
    have others := fun place member => listed place (List.mem_cons_of_mem first member)
    have further := turns_foldl_checkSeed entity others
      (PassState.checkSeed context entity progress first)
    have headsHere := further.advances.heads heads
    have head := (turns_checkSeed entity progress here).enlarges valid plain traced headsHere
    rcases List.mem_cons.1 member with rfl | later
    · have before := (turns_checkSeed entity progress here).advances.spare
        (further.advances.spare spare)
      exact (further.enlarges valid plain head.traced heads).seeded
        (traced.seeded_checkSeed valid plain here planned headsHere before)
    · have plannedToo := (plan?_gains head.gains traced.counted.firm
        (exists_cons_of_plan planned).2).trans planned
      exact ih others later head.traced plannedToo heads spare

end Places

/-! ## Entities -/

/-- The books of a pass between two entities: mates are joined, every entity that was checked was
tried, and correspondences were built from such entities only. -/
structure Searched (state : PassState) (catalog : Catalog) (opening : Opening) : Prop where
  traced : state.Traced catalog opening
  coupled : state.Coupled catalog
  tried : ∀ id ∈ state.matcher.checked,
    state.relation.contains id = true ∧ state.Tried catalog id
  rooted : ∀ pair, state.matcher.Built pair → pair.entity ∈ state.matcher.checked

theorem Traced.noted (traced : state.Traced catalog opening) (tag : String) (entity : EntityId) :
    (state.noted tag entity).Traced catalog opening :=
  ⟨⟨traced.counted.firm, traced.counted.count⟩, traced.stems, traced.named, traced.issued,
    traced.registry, traced.spent, traced.within, traced.limit⟩

/-- Every entity that is pending is in the relation. -/
theorem contains_of_pending {tag : String} {dirty seen : Std.ExtTreeSet EntityId}
    (member : entity ∈ state.pending tag dirty seen) : state.relation.contains entity = true := by
  obtain ⟨-, holds⟩ := List.mem_filter.1 member
  simp only [Bool.and_eq_true] at holds
  cases found : state.relation.get? entity with
  | none => simp [found] at holds
  | some _ => exact Relation.contains_iff.2 ⟨_, found⟩

section Rounds

variable {ending : Ending context.catalog} (valid : context.catalog.Valid)
  (plain : context.tentative = false) (tag : String)

include valid plain

/-- Looking at an entity adds it to those that were tried. -/
theorem Searched.visit (searched : state.Searched context.catalog ending.toOpening)
    (present : state.relation.contains entity = true)
    (heads : (state.visit context tag entity).Heads ending)
    (spare : (state.visit context tag entity).Spare) :
    (state.visit context tag entity).Searched context.catalog ending.toOpening ∧
      state.relation.Gains (state.visit context tag entity).relation ∧
      ∀ id, id ∈ (state.visit context tag entity).matcher.checked ↔
        id = entity ∨ id ∈ state.matcher.checked := by
  have traced := searched.traced.noted tag entity
  have listed : ∀ place ∈ seedPlaces context.catalog, place ∈ seedPlaces context.catalog :=
    fun _ listed => listed
  have turns : Turns context (fun pair => pair.entity = entity) (state.noted tag entity)
      (state.visit context tag entity) :=
    turns_foldl_checkSeed entity listed ([], state.noted tag entity)
  have enlarges := turns.enlarges valid plain traced heads
  have gains : state.relation.Gains (state.visit context tag entity).relation := enlarges.gains
  have checked (id : EntityId) : id ∈ (state.visit context tag entity).matcher.checked ↔
      id = entity ∨ id ∈ state.matcher.checked := by
    rw [enlarges.checked]
    exact (Std.ExtTreeMap.mem_insert).trans (by rw [Std.compare_eq_iff_eq, eq_comm])
  refine ⟨⟨enlarges.traced, ?_, fun id member => ?_, fun pair built => ?_⟩, gains, checked⟩
  · exact @Coupled.foldl_checkSeed context entity ending valid plain _ listed
      ([], state.noted tag entity) searched.coupled traced heads spare
  · rcases (checked id).1 member with rfl | before
    · refine ⟨gains.contains present, fun place inside plan planned => ?_⟩
      have before : (empty place.1).plan? state.relation context.catalog ⟨id, place.2⟩ = some plan :=
        (plan?_gains gains searched.traced.counted.firm present).symm.trans planned
      exact @Traced.seeded_foldl_checkSeed context id ending valid plain _ listed place inside plan
        ([], state.noted tag id) traced before heads spare
    · obtain ⟨there, tried⟩ := searched.tried id before
      have noted : (state.noted tag entity).Tried context.catalog id := tried
      exact ⟨gains.contains there, noted.enlarges there traced.counted.firm enlarges⟩
  · rw [checked]
    exact (enlarges.roots pair built).symm.imp_right (searched.rooted pair)

theorem Searched.foldl_visit {entities : List EntityId} : ∀ {state : PassState},
    state.Searched context.catalog ending.toOpening →
      (∀ id ∈ entities, state.relation.contains id = true) →
      (entities.foldl (PassState.visit context tag) state).Heads ending →
      (entities.foldl (PassState.visit context tag) state).Spare →
      (entities.foldl (PassState.visit context tag) state).Searched context.catalog ending.toOpening ∧
        ∀ id, id ∈ state.matcher.checked ∨ id ∈ entities →
          id ∈ (entities.foldl (PassState.visit context tag) state).matcher.checked := by
  induction entities with
  | nil => exact fun searched _ _ _ => ⟨searched, fun id member => by simpa using member⟩
  | cons first rest ih =>
    intro state searched present heads spare
    have further := advances_foldl_visit context tag rest (state.visit context tag first)
    obtain ⟨head, gains, checked⟩ := searched.visit valid plain tag (present first List.mem_cons_self)
      (further.heads heads) (further.spare spare)
    obtain ⟨last, kept⟩ := ih head
      (fun id member => gains.contains (present id (List.mem_cons_of_mem first member))) heads spare
    refine ⟨last, fun id member => kept id ?_⟩
    rw [checked]
    rcases member with before | member
    · exact Or.inl (Or.inr before)
    · exact (List.mem_cons.1 member).imp_left Or.inl

/-- Rounds go on until nothing is pending: each spends a check, and the limit is above what is left of
the budget. -/
theorem Searched.rounds (dirty : Std.ExtTreeSet EntityId) (limit : Nat) :
    ∀ (seen : Std.ExtTreeSet EntityId) {state : PassState},
      state.Searched context.catalog ending.toOpening → (∀ id ∈ seen, id ∈ state.matcher.checked) →
      (PassState.rounds context tag dirty limit seen state).Heads ending →
      (PassState.rounds context tag dirty limit seen state).Spare →
      (PassState.rounds context tag dirty limit seen state).Searched context.catalog ending.toOpening ∧
        (seedPlaces context.catalog ≠ [] → state.matcher.budget < limit →
          ∃ last : Std.ExtTreeSet EntityId,
            (∀ id ∈ last,
              id ∈ (PassState.rounds context tag dirty limit seen state).matcher.checked) ∧
            (PassState.rounds context tag dirty limit seen state).pending tag dirty last = []) := by
  induction limit with
  | zero => exact fun _ _ searched _ _ _ => ⟨searched, fun _ few => absurd few (Nat.not_lt_zero _)⟩
  | succ limit ih =>
    intro seen state searched within heads spare
    unfold PassState.rounds at heads spare ⊢
    dsimp only at heads spare ⊢
    split
    · rename_i done
      rw [if_pos done] at spare
      have left_ : state.matcher.budget ≠ 0 := by
        unfold Spare at spare
        unfold Matcher.budget
        omega
      simp only [left_, decide_false, Bool.or_false, List.isEmpty_iff] at done
      exact ⟨searched, fun _ _ => ⟨seen, within, done⟩⟩
    · rename_i going
      rw [if_neg going] at heads spare
      have others : state.pending tag dirty seen ≠ [] := fun none_ => going (by simp [none_])
      have further := advances_rounds context tag dirty limit
        (seen.insertMany (state.pending tag dirty seen))
        ((state.pending tag dirty seen).foldl (PassState.visit context tag) state)
      have visits := advances_foldl_visit context tag (state.pending tag dirty seen) state
      have spareHere := further.spare spare
      obtain ⟨round, checked⟩ := searched.foldl_visit valid plain tag
        (fun id member => contains_of_pending member) (further.heads heads) spareHere
      obtain ⟨last, ends⟩ := ih _ round (fun id member => checked id (by
        rw [Std.ExtTreeSet.mem_insertMany_list, List.contains_iff_mem] at member
        exact member.imp_left (within id))) heads spare
      refine ⟨last, fun some_ few => ends some_ ?_⟩
      have spent := checks_lt_foldl_visit tag some_ others (visits.spare spareHere)
      have limits := visits.limit
      unfold Spare at spareHere
      unfold Matcher.budget at few ⊢
      omega

end Rounds

/-! ## The end of a pass -/

/-- When nothing is pending any more, all entities were tried. -/
theorem Searched.tried_of_pending (searched : state.Searched catalog opening) {tag : String}
    {dirty seen : Std.ExtTreeSet EntityId} (within : ∀ id ∈ seen, id ∈ state.matcher.checked)
    (done : state.pending tag dirty seen = []) (present : state.relation.contains entity = true) :
    state.Tried catalog entity := by
  have forest := searched.traced.counted.firm.forest
  have acyclic := (Relation.checkCycles_iff forest.named forest.grounded).2 forest.acyclic
  obtain ⟨here, found⟩ := Relation.contains_iff.1 present
  have accepted := searched.traced.counted.firm.accepted entity here found
  refine (searched.tried entity ?_).2
  by_contra unchecked
  have unseen : seen.contains entity = false := Bool.eq_false_iff.2 fun member =>
    unchecked (within entity (Std.ExtTreeSet.mem_iff_contains.2 member))
  have member : entity ∈ state.pending tag dirty seen := by
    refine List.mem_filter.2 ⟨Relation.mem_topological acyclic found, ?_⟩
    have new : state.matcher.checked[entity]? = none := Std.ExtTreeMap.getElem?_eq_none unchecked
    simp [found, accepted, new, unseen]
  rw [done] at member
  simp at member

/-- All that can be derived when every entity was tried is there. -/
theorem Searched.holds (searched : state.Searched catalog opening) (valid : catalog.Valid)
    (few : catalog.FewDeep)
    (tried : ∀ id, state.relation.contains id = true → state.Tried catalog id)
    {birth : Correspondence} (derived : birth.Derived state.relation catalog) :
    state.Holds catalog opening birth := by
  have traced := searched.traced
  have sown {law : LawId} {pair : Pair} {plan : PairPlan} (place : (law, pair.node) ∈ seedPlaces catalog)
      (planned : (empty law).plan? state.relation catalog pair = some plan) :
      state.matcher.Seeded pair :=
    tried pair.entity (exists_cons_of_plan planned).2 (law, pair.node) place plan planned
  cases derived with
  | @seed law pair plan place planned =>
    obtain ⟨id, map, found, seeded⟩ := sown place planned
    obtain ⟨bears, fills, retraces⟩ := traced.birth_of_seed valid found seeded place planned
    exact ⟨id, map, _, found, .seed place planned, ⟨rfl, rfl, rfl, rfl⟩, bears, fills, retraces⟩
  | union derivedLeft derivedRight unfilledLeft unfilledRight unites =>
    obtain ⟨singleLeft, singleRight⟩ := derivedLeft.single_of_unites few valid derivedRight unites
    obtain ⟨law, first, planFirst, placeFirst, plannedFirst, rfl⟩ :=
      derivedLeft.seed_of_single singleLeft
    obtain ⟨other, second, planSecond, placeSecond, plannedSecond, rfl⟩ :=
      derivedRight.seed_of_single singleRight
    obtain rfl : other = law := by
      have same := unites.law
      rwa [law_ofPlan, law_ofPlan] at same
    have mates : Mates state.relation catalog other first second planFirst planSecond :=
      ⟨placeFirst, placeSecond, plannedFirst, plannedSecond, unfilledLeft, unfilledRight, _, _, _,
        unites⟩
    exact traced.holds_of_joined valid few mates (searched.coupled other first second planFirst
      planSecond mates (sown placeFirst plannedFirst) (sown placeSecond plannedSecond)) unites

/-- If conclusions are to be found again, a relation is concluded when all that can be derived is
there. -/
theorem concluded_of_holds (again : opening.again)
    (holds : ∀ birth : Correspondence, birth.Derived state.relation catalog →
      state.Holds catalog opening birth) : state.relation.Concluded catalog := by
  intro birth derived filled
  obtain ⟨id, map, other, -, -, -, -, fills, retraces⟩ := holds birth derived
  exact retraces (fills.2 filled) again

/-- Where there is no place to sow at, nothing can be derived. -/
theorem not_derived_of_seedPlaces {relation : Relation} (none_ : seedPlaces catalog = [])
    {birth : Correspondence} : ¬ birth.Derived relation catalog := by
  intro derived
  induction derived with
  | seed place _ => simp [none_] at place
  | union _ _ _ _ _ ih _ => exact ih

end PassState

namespace Matcher

variable {catalog : Catalog} {relation : Relation} {matcher : Matcher} {options : PassOptions}
  {dirty : Std.ExtTreeSet EntityId}

/-- What a pass of a matcher over a relation starts from. -/
def opening (matcher : Matcher) (relation : Relation) (again : Prop) : Opening :=
  ⟨relation.nextId.toNat, matcher.nextMap.toNat, matcher.maxChecks, again⟩

theorem prepare_of_reset (matcher : Matcher) (reset : options.reset = true) :
    matcher.prepare options = empty matcher.maxChecks := by
  unfold prepare
  rw [reset]
  rfl

/-- The books are in order before a pass that starts without correspondences. -/
theorem searched_empty (firm : relation.Firm) (maxChecks : Nat) (catalog : Catalog) (again : Prop) :
    PassState.Searched ⟨empty maxChecks, relation, .empty⟩ catalog
      ((empty maxChecks).opening relation again) := by
  have nothing (id : MapId) : (empty maxChecks).get? id = none :=
    Std.ExtTreeMap.getElem?_empty
  refine ⟨⟨⟨firm, rfl⟩, fun id map found => ?_, fun id map found => ?_, fun id map found => ?_,
    fun pair id listed => ?_, Nat.le_refl _, Nat.zero_le _, rfl⟩,
    fun law first second planFirst planSecond _ seeded => ?_, fun id member => ?_,
    fun pair built => ?_⟩
  · cases (nothing id).symm.trans found
  · cases (nothing id).symm.trans found
  · cases (nothing id).symm.trans found
  · simp [registered, empty] at listed
  · obtain ⟨id, map, found, -⟩ := seeded
    cases (nothing id).symm.trans found
  · simp [empty] at member
  · obtain ⟨id, map, found, -⟩ := built
    cases (nothing id).symm.trans found

/-- A pass that starts with its books in order and has checks left in the end comes to all that can
be derived then. -/
theorem searched_passed (valid : catalog.Valid) (few : catalog.FewDeep)
    (plain : options.tentative = false) {again : Prop}
    (start : PassState.Searched ⟨matcher.prepare options, relation, .empty⟩ catalog
      ((matcher.prepare options).opening relation again))
    (small : (matcher.prepare options).nextMap.toNat + (matcher.prepare options).maxChecks <
      UInt64.size)
    (spare : (matcher.passed relation catalog options dirty).Spare)
    (room : ∀ law ∈ catalog.laws, relation.nextId.toNat +
      (matcher.passed relation catalog options dirty).outcome.appended.length + law.nodes.length <
        UInt64.size)
    (apart : again → (matcher.passed relation catalog options dirty).relation.Apart
      (matcher.passed relation catalog options dirty).outcome.appended) :
    (matcher.passed relation catalog options dirty).Searched catalog
        ((matcher.prepare options).opening relation again) ∧
      ∀ birth : Correspondence,
        birth.Derived (matcher.passed relation catalog options dirty).relation catalog →
        (matcher.passed relation catalog options dirty).Holds catalog
          ((matcher.prepare options).opening relation again) birth := by
  let ending : Ending catalog := ⟨(matcher.prepare options).opening relation again,
    (matcher.passed relation catalog options dirty).relation,
    (matcher.passed relation catalog options dirty).outcome.appended, apart, room, small⟩
  have heads : (matcher.passed relation catalog options dirty).Heads ending :=
    ⟨Relation.extends_refl _, List.prefix_refl _⟩
  obtain ⟨searched, ends⟩ := @PassState.Searched.rounds ⟨catalog, options.tentative⟩ ending valid
    plain options.tag dirty ((matcher.prepare options).maxChecks + 2) ∅ _ start
    (fun id member => by simp at member) heads spare
  refine ⟨searched, fun birth derived => ?_⟩
  by_cases some_ : PassState.seedPlaces catalog = []
  · exact absurd derived (PassState.not_derived_of_seedPlaces some_)
  · have enough : (matcher.prepare options).budget < (matcher.prepare options).maxChecks + 2 := by
      unfold budget
      omega
    obtain ⟨seen, within, done⟩ := ends some_ enough
    exact searched.holds valid few (fun id present => searched.tried_of_pending within done present)
      derived

end Matcher

end ConceptLaws
