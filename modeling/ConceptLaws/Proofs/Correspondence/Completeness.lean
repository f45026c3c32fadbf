import ConceptLaws.Proofs.Correspondence.Search

/-! Completeness of matching.
A pass that has checks left in the end has found every assignment of a law with one predicate set and
at most two deep predicates. The first round looks at every accepted entity, so that each deep
predicate of the assignment has a seed. -/

namespace ConceptLaws

/-- The topological order of a relation without cycles lists every entity. -/
theorem Relation.mem_topological {relation : Relation} (acyclic : relation.checkCycles = .ok ())
    {id : EntityId} {entity : Entity} (found : relation.get? id = some entity) :
    id ∈ relation.topological := by
  unfold checkCycles at acyclic
  dsimp only at acyclic
  split at acyclic
  · simp at acyclic
  rename_i all
  have listed : id ∈ relation.ids := Std.ExtTreeMap.mem_keys.2
    (Std.ExtTreeMap.mem_iff_isSome_getElem?.2 (Option.isSome_iff_exists.2 ⟨entity, found⟩))
  have inside := List.find?_eq_none.1 all id listed
  simpa using inside

namespace PassState

variable {context : PassContext} {law : Law} {place : LawNodeId → EntityId} {fresh : Pair → Prop}
  {state later : PassState}

/-- Anywhere. -/
def anywhere : Pair → Prop := fun _ => True

theorem Tracked.grows_noted {catalog : Catalog} (tracked : state.Tracked catalog law) (tag : String)
    (entity : EntityId) (fresh : Pair → Prop) :
    Grows catalog law fresh state (state.noted tag entity) :=
  ⟨⟨Matcher.grounded_of_maps tracked.grounded rfl, tracked.matcher.of_maps rfl rfl rfl,
    tracked.spent, tracked.room⟩, state.relation.extends_refl, rfl, Nat.le_refl _,
    fun _ map found => ⟨map, found, map.ripens_refl⟩,
    fun _ after found _ => Or.inl ⟨after, found, after.ripens_refl⟩⟩

section Rounds

variable (valid : context.catalog.Valid) (plain : context.catalog.Asymmetric)
  (listed : law ∈ context.catalog.laws) (single : law.predicateSets.length = 1)

include valid listed single

theorem Tracked.grows_visit (tracked : state.Tracked context.catalog law) (tag : String)
    (entity : EntityId) :
    Grows context.catalog law anywhere state (state.visit context tag entity) := by
  have noted := tracked.grows_noted tag entity anywhere
  have run : Run context anywhere (state.noted tag entity) (state.visit context tag entity) :=
    (run_visit context tag state entity).mono fun _ _ => trivial
  exact noted.trans (run.grows valid listed single noted.tracked)

theorem grows_foldl_visit (tag : String) (entities : List EntityId) :
    ∀ {state : PassState}, state.Tracked context.catalog law →
      Grows context.catalog law anywhere state (entities.foldl (visit context tag) state) := by
  induction entities with
  | nil => exact fun tracked => tracked.grows_refl anywhere
  | cons first rest ih =>
    intro state tracked
    have head := tracked.grows_visit valid listed single tag first
    exact head.trans (ih head.tracked)

theorem grows_rounds (tag : String) (dirty : Std.ExtTreeSet EntityId) (limit : Nat) :
    ∀ (seen : Std.ExtTreeSet EntityId) {state : PassState}, state.Tracked context.catalog law →
      Grows context.catalog law anywhere state (rounds context tag dirty limit seen state) := by
  induction limit with
  | zero => exact fun _ _ tracked => tracked.grows_refl anywhere
  | succ limit ih =>
    intro seen state tracked
    unfold rounds
    dsimp only
    split
    · exact tracked.grows_refl anywhere
    · have round := grows_foldl_visit valid listed single tag (state.pending tag dirty seen) tracked
      exact round.trans (ih _ round.tracked)

include plain

/-! ## Entities -/

theorem attains_foldl_checkSeed (few : law.deepPredicates.length ≤ 2) (entity : EntityId)
    {spots : List (LawId × LawNodeId)} (tried : ∀ spot ∈ spots, spot ∈ seedPlaces context.catalog) :
    ∀ {progress : List MapId × PassState}, progress.2.Attains context.catalog law place →
      (spots.foldl (checkSeed context entity) progress).2.Spare →
      (spots.foldl (checkSeed context entity) progress).2.Attains context.catalog law place := by
  induction spots with
  | nil => exact fun attains _ => attains
  | cons first rest ih =>
    intro progress attains spare
    have others : ∀ spot ∈ rest, spot ∈ seedPlaces context.catalog :=
      fun spot member => tried spot (List.mem_cons_of_mem first member)
    have here := tried first List.mem_cons_self
    have grows := (run_checkSeed entity progress here).grows valid listed single attains.tracked
    have further := (run_foldl_checkSeed entity others (checkSeed context entity progress first)).grows
      valid listed single grows.tracked
    exact ih others (attains.checkSeed valid plain listed single few entity here (further.spare spare))
      spare

theorem seeded_foldl_checkSeed {deep : LawNodeId} (lowest : deep ∈ law.deepPredicates)
    {spots : List (LawId × LawNodeId)} (tried : ∀ spot ∈ spots, spot ∈ seedPlaces context.catalog)
    (member : (law.id, deep) ∈ spots) :
    ∀ {progress : List MapId × PassState}, progress.2.Seeks context.catalog law place →
      (spots.foldl (checkSeed context (place deep)) progress).2.Spare →
      (spots.foldl (checkSeed context (place deep)) progress).2.matcher.Seeded
        (placed place deep) := by
  induction spots with
  | nil => simp at member
  | cons first rest ih =>
    intro progress seeks spare
    have others : ∀ spot ∈ rest, spot ∈ seedPlaces context.catalog :=
      fun spot member => tried spot (List.mem_cons_of_mem first member)
    have grows := (run_checkSeed (place deep) progress (tried first List.mem_cons_self)).grows valid
      listed single seeks.tracked
    have further := (run_foldl_checkSeed (place deep) others
      (checkSeed context (place deep) progress first)).grows valid listed single grows.tracked
    rcases List.mem_cons.1 member with rfl | later
    · exact further.seeded
        (seeks.seeded_checkSeed valid plain listed single lowest (further.spare spare))
    · exact ih others later (seeks.grow grows) spare

theorem Attains.visit (attains : state.Attains context.catalog law place)
    (few : law.deepPredicates.length ≤ 2) (tag : String) (entity : EntityId)
    (spare : (state.visit context tag entity).Spare) :
    (state.visit context tag entity).Attains context.catalog law place := by
  have noted : (state.noted tag entity).Attains context.catalog law place :=
    ⟨attains.toSeeks.grow (attains.tracked.grows_noted tag entity anywhere), attains.found⟩
  exact @attains_foldl_checkSeed context law place valid plain listed single few entity
    (seedPlaces context.catalog) (fun _ tried => tried) ([], state.noted tag entity) noted spare

theorem Seeks.seeded_visit (seeks : state.Seeks context.catalog law place) (tag : String)
    {deep : LawNodeId} (lowest : deep ∈ law.deepPredicates)
    (spare : (state.visit context tag (place deep)).Spare) :
    (state.visit context tag (place deep)).matcher.Seeded (placed place deep) :=
  @seeded_foldl_checkSeed context law place valid plain listed single deep lowest
    (seedPlaces context.catalog) (fun _ tried => tried) (mem_seedPlaces listed lowest)
    ([], state.noted tag (place deep))
    (seeks.grow (seeks.tracked.grows_noted tag (place deep) anywhere)) spare

/-! ## Rounds -/

theorem attains_foldl_visit (few : law.deepPredicates.length ≤ 2) (tag : String)
    (entities : List EntityId) : ∀ {state : PassState}, state.Attains context.catalog law place →
      (entities.foldl (PassState.visit context tag) state).Spare →
      (entities.foldl (PassState.visit context tag) state).Attains context.catalog law place := by
  induction entities with
  | nil => exact fun attains _ => attains
  | cons first rest ih =>
    intro state attains spare
    have head := attains.tracked.grows_visit valid listed single tag first
    have further := grows_foldl_visit valid listed single tag rest head.tracked
    exact ih (attains.visit valid plain listed single few tag first (further.spare spare)) spare

theorem seeded_foldl_visit (tag : String) {deep : LawNodeId} (lowest : deep ∈ law.deepPredicates)
    {entities : List EntityId} (member : place deep ∈ entities) :
    ∀ {state : PassState}, state.Seeks context.catalog law place →
      (entities.foldl (PassState.visit context tag) state).Spare →
      (entities.foldl (PassState.visit context tag) state).matcher.Seeded (placed place deep) := by
  induction entities with
  | nil => simp at member
  | cons first rest ih =>
    intro state seeks spare
    have head := seeks.tracked.grows_visit valid listed single tag first
    have further := grows_foldl_visit valid listed single tag rest head.tracked
    rcases List.mem_cons.1 member with rfl | later
    · exact further.seeded
        (seeks.seeded_visit valid plain listed single tag lowest (further.spare spare))
    · exact ih later (seeks.grow head) spare

theorem attains_rounds (few : law.deepPredicates.length ≤ 2) (tag : String)
    (dirty : Std.ExtTreeSet EntityId) (limit : Nat) :
    ∀ (seen : Std.ExtTreeSet EntityId) {state : PassState},
      state.Attains context.catalog law place →
      (rounds context tag dirty limit seen state).Spare →
      (rounds context tag dirty limit seen state).Attains context.catalog law place := by
  induction limit with
  | zero => exact fun _ _ attains _ => attains
  | succ limit ih =>
    intro seen state attains spare
    unfold rounds at spare ⊢
    dsimp only at spare ⊢
    split
    · exact attains
    · rename_i going
      rw [if_neg going] at spare
      have round := grows_foldl_visit valid listed single tag (state.pending tag dirty seen)
        attains.tracked
      have further := grows_rounds valid listed single tag dirty limit
        (seen.insertMany (state.pending tag dirty seen)) round.tracked
      exact ih _ (attains_foldl_visit valid plain listed single few tag _ attains
        (further.spare spare)) spare

omit valid listed single plain in
/-- The first round looks at every accepted entity. -/
theorem mem_pending (acyclic : state.relation.checkCycles = .ok ()) (tag : String)
    (dirty : Std.ExtTreeSet EntityId) (unchecked : state.matcher.checked = ∅) {id : EntityId}
    {entity : Entity} (found : state.relation.get? id = some entity)
    (accepted : entity.isTentative = false) : id ∈ state.pending tag dirty ∅ := by
  refine List.mem_filter.2 ⟨Relation.mem_topological acyclic found, ?_⟩
  simp [found, accepted, unchecked]

/-- All seeds of an assignment are sown in the first round. -/
theorem Seeks.sown_rounds (seeks : state.Seeks context.catalog law place)
    (acyclic : state.relation.checkCycles = .ok ()) (unchecked : state.matcher.checked = ∅)
    (tag : String) (dirty : Std.ExtTreeSet EntityId) (limit : Nat)
    (spare : (rounds context tag dirty (limit + 1) ∅ state).Spare) :
    (rounds context tag dirty (limit + 1) ∅ state).matcher.Sown law place := by
  intro deep lowest
  have start := (grows_rounds valid listed single tag dirty (limit + 1) ∅ seeks.tracked).spare spare
  obtain ⟨node, entity, -, found, accepted, -⟩ :=
    seeks.places.fits deep (Law.mem_deepPredicates.1 lowest).1
  have member : place deep ∈ state.pending tag dirty ∅ :=
    mem_pending acyclic tag dirty unchecked found (by
      simp only [LawNode.accepts, Bool.and_eq_true, Bool.not_eq_true'] at accepted
      exact accepted.1.1.1)
  have going : ¬((state.pending tag dirty ∅).isEmpty || state.matcher.budget = 0) = true := by
    unfold Spare at start
    have some_ := List.ne_nil_of_mem member
    have left_ : state.matcher.budget ≠ 0 := by
      unfold Matcher.budget
      omega
    simp [some_, left_]
  unfold rounds at spare ⊢
  dsimp only at spare ⊢
  rw [if_neg going] at spare ⊢
  have round := grows_foldl_visit valid listed single tag (state.pending tag dirty ∅) seeks.tracked
  have further := grows_rounds valid listed single tag dirty limit
    ((∅ : Std.ExtTreeSet EntityId).insertMany (state.pending tag dirty ∅)) round.tracked
  exact further.seeded (seeded_foldl_visit valid plain listed single tag lowest member seeks
    (further.spare spare))

end Rounds

end PassState

/-! ## Passes over fresh matchers -/

namespace Matcher

variable {catalog : Catalog} {relation : Relation} {law : Law} {place : LawNodeId → EntityId}

theorem prepare_empty (maxChecks : Nat) (options : PassOptions) :
    (empty maxChecks).prepare options = empty maxChecks := by
  unfold prepare
  split
  · rfl
  · rfl

theorem attains_empty (valid : catalog.Valid) (listed : law ∈ catalog.laws)
    (single : law.predicateSets.length = 1) (places : law.Places catalog relation place)
    {maxChecks : Nat} (small : maxChecks < UInt64.size) (outcome : Outcome) :
    PassState.Attains ⟨empty maxChecks, relation, outcome⟩ catalog law place := by
  have tracked : PassState.Tracked ⟨empty maxChecks, relation, outcome⟩ catalog law :=
    ⟨grounded_of_isEmpty rfl, tracked_empty maxChecks catalog law, Nat.le_refl _,
      Nat.zero_le _, small⟩
  refine ⟨⟨tracked, places⟩, fun sown => ?_⟩
  obtain ⟨deep, lowest⟩ := valid.exists_deepPredicate listed single
  obtain ⟨id, map, found, -⟩ := sown deep lowest
  exact absurd found (by simp [empty, get?])

/-- With a fresh matcher, a pass that has checks left in the end finds every assignment of a law that
has one predicate set with at most two deep predicates. -/
theorem finds_evaluate (valid : catalog.Valid) (plain : catalog.Asymmetric)
    (listed : law ∈ catalog.laws) (single : law.predicateSets.length = 1)
    (few : law.deepPredicates.length ≤ 2) (acyclic : relation.checkCycles = .ok ())
    {maxChecks : Nat} (small : maxChecks < UInt64.size) (options : PassOptions)
    (dirty : Std.ExtTreeSet EntityId)
    (spare : ((empty maxChecks).evaluate relation catalog options dirty).matcher.checks < maxChecks)
    (places : law.Places catalog relation place) :
    ((empty maxChecks).evaluate relation catalog options dirty).matcher.Finds law place := by
  have passes : ((empty maxChecks).evaluate relation catalog options dirty).matcher =
      (PassState.rounds ⟨catalog, options.tentative⟩ options.tag dirty (maxChecks + 2) ∅
        ⟨empty maxChecks, relation, .empty⟩).matcher := by
    rw [matcher_evaluate]
    unfold passed
    rw [prepare_empty]
    rfl
  rw [passes] at spare ⊢
  have start := attains_empty valid listed single places small .empty
  have grows := @PassState.grows_rounds ⟨catalog, options.tentative⟩ law valid listed single
    options.tag dirty (maxChecks + 2) ∅ _ start.tracked
  have left : PassState.Spare _ := Nat.lt_of_lt_of_eq spare grows.limit.symm
  have attains := @PassState.attains_rounds ⟨catalog, options.tentative⟩ law place valid plain listed
    single few options.tag dirty (maxChecks + 2) ∅ _ start left
  exact attains.found (@PassState.Seeks.sown_rounds ⟨catalog, options.tentative⟩ law place _ valid
    plain listed single start.toSeeks acyclic rfl options.tag dirty (maxChecks + 1) left)

end Matcher

/-! ## A crowd of interchangeable entities -/

/-- Three concepts, and one that is both of the first two. -/
def mixed : List Concept :=
  [⟨⟨1⟩, "p", [], ∅, none, false⟩, ⟨⟨2⟩, "q", [], ∅, none, false⟩, ⟨⟨3⟩, "r", [], ∅, none, false⟩,
    ⟨⟨4⟩, "pq", [⟨1⟩, ⟨2⟩], ∅, none, false⟩]

/-- The first concepts side by side, as many as there are numbers. -/
def sideBySide (numbers : List UInt64) : Law where
  id := ⟨100⟩
  name := "side by side"
  nodes := numbers.map fun number => ⟨⟨number⟩, ⟨number⟩, none, none, .empty, none, none⟩
  predicateSets := [(∅ : Std.ExtTreeSet LawNodeId).insertMany (numbers.map Identifier.mk)]
  deepNodes := []

def mixedCatalog (numbers : List UInt64) : Catalog where
  definition := ⟨mixed, [sideBySide numbers]⟩
  lineages := (∅ : Std.ExtTreeMap ConceptId (List ConceptId)).insertMany
    [((⟨1⟩ : ConceptId), [(⟨1⟩ : ConceptId)]), (⟨2⟩, [⟨2⟩]), (⟨3⟩, [⟨3⟩]), (⟨4⟩, [⟨1⟩, ⟨2⟩, ⟨4⟩])]
  fingerprint := Fingerprint.ofContent Fingerprint.catalogDomain
    (Definition.toCbor ⟨mixed, [sideBySide numbers]⟩)

theorem valid_mixedCatalog {numbers : List UInt64} (passed : Definition.checkLaws
    (mixedCatalog numbers).definition [] [] [sideBySide numbers] = .ok ()) :
    (mixedCatalog numbers).Valid := by
  have concepts : (mixedCatalog numbers).definition.checkConcepts = .ok () := rfl
  have lineages : (mixedCatalog numbers).definition.lineages =
      .ok (mixedCatalog numbers).lineages := rfl
  refine ⟨(mixedCatalog numbers).definition, ?_⟩
  unfold Catalog.ofDefinition
  rw [concepts, lineages]
  change (Definition.checkLaws (mixedCatalog numbers).definition [] [] [sideBySide numbers] >>=
    fun _ => _) = _
  rw [passed]
  rfl

theorem asymmetric_mixedCatalog (numbers : List UInt64) : (mixedCatalog numbers).Asymmetric := by
  intro concept listed
  have cases : concept ∈ mixed := listed
  simp only [mixed, List.mem_cons, List.not_mem_nil, or_false] at cases
  rcases cases with rfl | rfl | rfl | rfl
  · rfl
  · rfl
  · rfl
  · rfl

/-- The second entity is both p and q; the others are r, p, q and r. -/
def crowd : Relation :=
  ((Relation.ofRecords [⟨⟨1⟩, ⟨3⟩, none, none, .empty, none⟩, ⟨⟨2⟩, ⟨4⟩, none, none, .empty, none⟩,
    ⟨⟨3⟩, ⟨1⟩, none, none, .empty, none⟩, ⟨⟨4⟩, ⟨2⟩, none, none, .empty, none⟩,
    ⟨⟨5⟩, ⟨3⟩, none, none, .empty, none⟩] (mixedCatalog [])).toOption).getD .empty

/-- Each node is placed two entities further. -/
def twoFurther (id : LawNodeId) : EntityId := ⟨id.number + 2⟩

theorem acyclic_crowd : crowd.checkCycles = .ok () := rfl

theorem node?_sideBySide {numbers : List UInt64} {number : UInt64} (member : number ∈ numbers) :
    (sideBySide numbers).node? ⟨number⟩ =
      some ⟨⟨number⟩, ⟨number⟩, none, none, .empty, none, none⟩ := by
  have found : numbers.find? (fun other => (⟨other⟩ : LawNodeId) == ⟨number⟩) = some number := by
    induction numbers with
    | nil => simp at member
    | cons first rest ih =>
      by_cases same : first = number
      · simp [same]
      · have later := (List.mem_cons.1 member).resolve_left (Ne.symm same)
        rw [List.find?_cons_of_neg (by simpa using same)]
        exact ih later
  unfold Law.node? sideBySide
  rw [List.find?_map]
  change Option.map _ (numbers.find? fun other => (⟨other⟩ : LawNodeId) == ⟨number⟩) = _
  rw [found]
  rfl

theorem isPredicate_sideBySide {numbers : List UInt64} {id : LawNodeId} :
    (sideBySide numbers).isPredicate id = true ↔ id.number ∈ numbers := by
  obtain ⟨number⟩ := id
  rw [Catalog.Law.isPredicate_of_single rfl, Std.ExtTreeSet.mem_insertMany_list]
  simp

/-- The entities at the nodes one, two and three are p, q and r. -/
theorem places_crowd {numbers : List UInt64} (few : ∀ number ∈ numbers, number ∈ [1, 2, 3]) :
    (sideBySide numbers).Places (mixedCatalog numbers) crowd twoFurther := by
  refine ⟨fun first second _ _ same => ?_, fun id predicate => ?_⟩
  · obtain ⟨number⟩ := first
    obtain ⟨other⟩ := second
    have further : number + 2 = other + 2 := congrArg Identifier.number same
    rw [(UInt64.add_left_inj 2).1 further]
  · have member := isPredicate_sideBySide.1 predicate
    have accepted : ∀ number ∈ ([1, 2, 3] : List UInt64), ∃ entity,
        crowd.get? (twoFurther ⟨number⟩) = some entity ∧
          LawNode.accepts ⟨⟨number⟩, ⟨number⟩, none, none, .empty, none, none⟩
            (mixedCatalog numbers) entity = true := by
      intro number listed
      simp only [List.mem_cons, List.not_mem_nil, or_false] at listed
      rcases listed with rfl | rfl | rfl
      · exact ⟨_, rfl, rfl⟩
      · exact ⟨_, rfl, rfl⟩
      · exact ⟨_, rfl, rfl⟩
    obtain ⟨entity, found, fits⟩ := accepted id.number (few id.number member)
    refine ⟨_, entity, node?_sideBySide member, found, fits, fun side parent leads => ?_⟩
    cases side with
    | head => simp [LawNode.parent] at leads
    | reference => simp [LawNode.parent] at leads

/-- Of two side by side, the third and the fourth entity are found. -/
theorem finds_evaluate_crowd : ((Matcher.empty 1000).evaluate crowd (mixedCatalog [1, 2]) .standard
    ∅).matcher.Finds (sideBySide [1, 2]) twoFurther := by
  have spare : ((Matcher.empty 1000).evaluate crowd (mixedCatalog [1, 2]) .standard
    ∅).matcher.checks < 1000 := by decide +kernel
  exact Matcher.finds_evaluate (valid_mixedCatalog rfl) (asymmetric_mixedCatalog _)
    List.mem_cons_self rfl (by decide +kernel) acyclic_crowd (by decide) .standard ∅ spare
    (places_crowd (by simp))

/-- Of three side by side, the third, fourth and fifth entity are not found. -/
theorem not_forall_finds : ¬∀ (catalog : Catalog) (law : Law) (relation : Relation) (maxChecks : Nat)
    (options : PassOptions) (dirty : Std.ExtTreeSet EntityId) (place : LawNodeId → EntityId),
    catalog.Valid → catalog.Asymmetric → law ∈ catalog.laws → law.predicateSets.length = 1 →
      relation.checkCycles = .ok () → maxChecks < UInt64.size →
      ((Matcher.empty maxChecks).evaluate relation catalog options dirty).matcher.checks <
        maxChecks →
      law.Places catalog relation place →
      ((Matcher.empty maxChecks).evaluate relation catalog options dirty).matcher.Finds law place := by
  intro all
  have spare : ((Matcher.empty 1000).evaluate crowd (mixedCatalog [1, 2, 3]) .standard
    ∅).matcher.checks < 1000 := by decide +kernel
  have finds := all (mixedCatalog [1, 2, 3]) (sideBySide [1, 2, 3]) crowd 1000 .standard ∅ twoFurther
    (valid_mixedCatalog rfl) (asymmetric_mixedCatalog _) List.mem_cons_self rfl acyclic_crowd
    (by decide) spare (places_crowd (by simp))
  obtain ⟨id, map, found, -, satisfied, holds⟩ := finds
  have missing : ((Matcher.empty 1000).evaluate crowd (mixedCatalog [1, 2, 3]) .standard
      ∅).matcher.toList.all (fun map => !(map.satisfied && ([1, 2, 3] : List UInt64).all fun number =>
        map.entityOf[(⟨number⟩ : LawNodeId)]? == some (twoFurther ⟨number⟩))) = true := by
    decide +kernel
  have absent := List.all_eq_true.1 missing map (Matcher.mem_toList.2 ⟨id, found⟩)
  have mapped : ∀ number ∈ ([1, 2, 3] : List UInt64),
      map.entityOf[(⟨number⟩ : LawNodeId)]? = some (twoFurther ⟨number⟩) :=
    fun number listed => holds ⟨number⟩ (isPredicate_sideBySide.2 listed)
  simp [satisfied, mapped] at absent

end ConceptLaws
