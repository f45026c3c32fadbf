import ConceptLaws.Proofs.Correspondence.Budget

/-! Passes that are cut off.
A round goes on to its end when no check is left, and notes as checked also the entities that it does
not try any more. For every entity that a pass looks at, the places are written down at which it is
tried. Up to one of them these are all places, then some, and then none. -/

namespace ConceptLaws

/-- An entity that a pass looks at, with the places at which it is tried. -/
abbrev Trial := EntityId × List (LawId × LawNodeId)

namespace PassState

/-- The places at which an entity is tried until no check is left. -/
def placesTried (context : PassContext) (entity : EntityId) :
    List (LawId × LawNodeId) → PassState → List (LawId × LawNodeId)
  | [], _ => []
  | place :: rest, state =>
    match state.matcher.spend? with
    | none => []
    | some _ =>
      place :: placesTried context entity rest (checkSeed context entity ([], state) place).2

/-- What comes of looking at entities one after the other. -/
def trialsOf (context : PassContext) (tag : String) : List EntityId → PassState → List Trial
  | [], _ => []
  | entity :: rest, state =>
    (entity, placesTried context entity (seedPlaces context.catalog) (state.noted tag entity)) ::
      trialsOf context tag rest (state.visit context tag entity)

/-- The trials of all rounds. -/
def roundTrials (context : PassContext) (tag : String) (dirty : Std.ExtTreeSet EntityId) :
    Nat → Std.ExtTreeSet EntityId → PassState → List Trial
  | 0, _, _ => []
  | limit + 1, seen, state =>
    let pending := state.pending tag dirty seen
    if pending.isEmpty || state.matcher.budget = 0 then []
    else
      trialsOf context tag pending state ++
        roundTrials context tag dirty limit (seen.insertMany pending)
          (pending.foldl (visit context tag) state)

variable {context : PassContext} {state : PassState} {tag : String}

/-! ## Places -/

theorem spend?_eq_none : state.matcher.spend? = none ↔ ¬state.Spare := by
  unfold Matcher.spend? Spare
  rw [Nat.not_lt]
  split
  · simp_all
  · simp_all

theorem prefix_placesTried (context : PassContext) (entity : EntityId)
    (places : List (LawId × LawNodeId)) : ∀ state : PassState,
      placesTried context entity places state <+: places := by
  induction places with
  | nil => exact fun _ => List.prefix_refl _
  | cons place rest ih =>
    intro state
    unfold placesTried
    split
    · exact List.nil_prefix
    · exact (List.prefix_cons_inj place).2 (ih _)

/-- Without a check left nothing is tried. -/
theorem placesTried_of_broke (broke : ¬state.Spare) (entity : EntityId)
    (places : List (LawId × LawNodeId)) : placesTried context entity places state = [] := by
  cases places with
  | nil => rfl
  | cons place rest =>
    unfold placesTried
    rw [spend?_eq_none.2 broke]

/-- What was made at earlier places makes no difference to the state. -/
theorem checkSeed_snd (context : PassContext) (entity : EntityId) (created : List MapId)
    (state : PassState) (place : LawId × LawNodeId) :
    (checkSeed context entity (created, state) place).2 =
      (checkSeed context entity ([], state) place).2 := by
  unfold checkSeed
  dsimp only
  split
  · rfl
  · split
    · rfl
    · rfl

theorem foldl_checkSeed_snd (context : PassContext) (entity : EntityId)
    (places : List (LawId × LawNodeId)) : ∀ (created others : List MapId) (state : PassState),
      (places.foldl (checkSeed context entity) (created, state)).2 =
        (places.foldl (checkSeed context entity) (others, state)).2 := by
  induction places with
  | nil => exact fun _ _ _ => rfl
  | cons place rest ih =>
    intro created others state
    have same := (checkSeed_snd context entity created state place).trans
      (checkSeed_snd context entity others state place).symm
    calc (rest.foldl (checkSeed context entity) (checkSeed context entity (created, state) place)).2
      _ = (rest.foldl (checkSeed context entity)
            ([], (checkSeed context entity (created, state) place).2)).2 := ih _ _ _
      _ = (rest.foldl (checkSeed context entity)
            ([], (checkSeed context entity (others, state) place).2)).2 := by rw [same]
      _ = _ := ih _ _ _

/-- Checks do not come back. -/
theorem Advances.spare_of_spare {later : PassState} (advances : state.Advances later)
    (spare : later.Spare) : state.Spare := by
  have fewer := advances.checks
  have limit := advances.limit
  unfold Spare at *
  omega

/-- An entity is tried at all places, or no check is left in the end. -/
theorem placesTried_eq_of_spare (entity : EntityId) {places : List (LawId × LawNodeId)} :
    ∀ {state : PassState}, (∀ place ∈ places, place ∈ seedPlaces context.catalog) →
      (places.foldl (checkSeed context entity) ([], state)).2.Spare →
        placesTried context entity places state = places := by
  induction places with
  | nil => exact fun _ _ => rfl
  | cons place rest ih =>
    intro state listed spare
    have others := fun place member => listed place (List.mem_cons_of_mem _ member)
    have before : state.Spare :=
      (turns_foldl_checkSeed entity listed ([], state)).advances.spare_of_spare spare
    have further : (rest.foldl (checkSeed context entity)
        ([], (checkSeed context entity ([], state) place).2)).2.Spare := by
      rw [foldl_checkSeed_snd context entity rest [] (checkSeed context entity ([], state) place).1]
      exact spare
    unfold placesTried
    cases paid : state.matcher.spend? with
    | none => exact absurd before (spend?_eq_none.1 paid)
    | some spent => exact congrArg (place :: ·) (ih others further)

/-! ## Entities -/

/-- Only what was tried at all places is followed by anything that is tried at all. -/
def CutOff (catalog : Catalog) (trials : List Trial) : Prop :=
  trials.Pairwise fun earlier later => earlier.2 = seedPlaces catalog ∨ later.2 = []

theorem trialsOf_of_broke (entities : List EntityId) : ∀ {state : PassState}, ¬state.Spare →
    ∀ trial ∈ trialsOf context tag entities state, trial.2 = [] := by
  induction entities with
  | nil => simp [trialsOf]
  | cons entity rest ih =>
    intro state broke trial member
    rcases List.mem_cons.1 member with rfl | later
    · exact @placesTried_of_broke context (state.noted tag entity) broke entity _
    · exact ih (mt (advances_visit context tag state entity).spare_of_spare broke) trial later

theorem roundTrials_of_broke (broke : ¬state.Spare) (dirty seen : Std.ExtTreeSet EntityId)
    (limit : Nat) : roundTrials context tag dirty limit seen state = [] := by
  have none_left : state.matcher.budget = 0 := by
    unfold Spare at broke
    unfold Matcher.budget
    omega
  cases limit with
  | zero => rfl
  | succ limit =>
    unfold roundTrials
    simp [none_left]

/-- An entity is tried at all places, or no check is left afterwards. -/
theorem complete_visit (entity : EntityId) (spare : (state.visit context tag entity).Spare) :
    placesTried context entity (seedPlaces context.catalog) (state.noted tag entity) =
      seedPlaces context.catalog :=
  @placesTried_eq_of_spare context entity _ (state.noted tag entity) (fun _ listed => listed) spare

theorem cutOff_trialsOf (entities : List EntityId) : ∀ state : PassState,
    CutOff context.catalog (trialsOf context tag entities state) ∧
      ((entities.foldl (visit context tag) state).Spare →
        ∀ trial ∈ trialsOf context tag entities state, trial.2 = seedPlaces context.catalog) := by
  induction entities with
  | nil => exact fun _ => ⟨.nil, by simp [trialsOf]⟩
  | cons entity rest ih =>
    intro state
    obtain ⟨cut, complete⟩ := ih (state.visit context tag entity)
    refine ⟨List.pairwise_cons.2 ⟨fun trial later => ?_, cut⟩, fun spare trial member => ?_⟩
    · by_cases spare : (state.visit context tag entity).Spare
      · exact .inl (complete_visit entity spare)
      · exact .inr (trialsOf_of_broke rest spare trial later)
    · rcases List.mem_cons.1 member with rfl | later
      · exact complete_visit entity
          ((advances_foldl_visit context tag rest _).spare_of_spare spare)
      · exact complete spare trial later

theorem CutOff.append {catalog : Catalog} {trials others : List Trial} (cut : CutOff catalog trials)
    (cutToo : CutOff catalog others)
    (across : (∀ trial ∈ trials, trial.2 = seedPlaces catalog) ∨ others = []) :
    CutOff catalog (trials ++ others) := by
  refine List.pairwise_append.2 ⟨cut, cutToo, fun trial member other memberToo => ?_⟩
  rcases across with complete | none_
  · exact .inl (complete trial member)
  · rw [none_] at memberToo
    cases memberToo

/-- By induction on the rounds: when no check is left after one, it was the last. -/
theorem cutOff_roundTrials (dirty : Std.ExtTreeSet EntityId) (limit : Nat) :
    ∀ (seen : Std.ExtTreeSet EntityId) (state : PassState),
      CutOff context.catalog (roundTrials context tag dirty limit seen state) ∧
        ((rounds context tag dirty limit seen state).Spare →
          ∀ trial ∈ roundTrials context tag dirty limit seen state,
            trial.2 = seedPlaces context.catalog) := by
  induction limit with
  | zero => exact fun _ _ => ⟨.nil, by simp [roundTrials]⟩
  | succ limit ih =>
    intro seen state
    unfold roundTrials rounds
    dsimp only
    split
    · exact ⟨.nil, by simp⟩
    · obtain ⟨cut, complete⟩ := @cutOff_trialsOf context tag (state.pending tag dirty seen) state
      obtain ⟨cutToo, completeToo⟩ := ih (seen.insertMany (state.pending tag dirty seen))
        ((state.pending tag dirty seen).foldl (visit context tag) state)
      refine ⟨cut.append cutToo ?_, fun spare trial member => ?_⟩
      · by_cases spare : ((state.pending tag dirty seen).foldl (visit context tag) state).Spare
        · exact .inl (complete spare)
        · exact .inr (roundTrials_of_broke spare dirty _ limit)
      · rcases List.mem_append.1 member with here | later
        · exact complete ((advances_rounds context tag dirty limit _ _).spare_of_spare spare) trial
            here
        · exact completeToo spare trial later

theorem prefix_trialsOf (entities : List EntityId) : ∀ state : PassState,
    ∀ trial ∈ trialsOf context tag entities state, trial.2 <+: seedPlaces context.catalog := by
  induction entities with
  | nil => simp [trialsOf]
  | cons entity rest ih =>
    intro state
    exact List.forall_mem_cons.2 ⟨prefix_placesTried context entity _ _, ih _⟩

theorem prefix_roundTrials (dirty : Std.ExtTreeSet EntityId) (limit : Nat) :
    ∀ (seen : Std.ExtTreeSet EntityId) (state : PassState),
      ∀ trial ∈ roundTrials context tag dirty limit seen state,
        trial.2 <+: seedPlaces context.catalog := by
  induction limit with
  | zero => simp [roundTrials]
  | succ limit ih =>
    intro seen state
    unfold roundTrials
    dsimp only
    split
    · simp
    · exact List.forall_mem_append.2 ⟨prefix_trialsOf _ state, ih _ _⟩

/-! ## What is noted -/

theorem Turns.checked {fresh : Pair → Prop} {later : PassState}
    (turns : Turns context fresh state later) : later.matcher.checked = state.matcher.checked := by
  induction turns with
  | refl => rfl
  | tail _ turn ih =>
    refine Eq.trans ?_ ih
    cases turn with
    | check paid =>
      obtain ⟨-, rfl⟩ := Matcher.spend?_eq_some paid
      rfl
    | take paid begets takes checked =>
      exact (makes_settleTaken paid begets.open_ takes checked).checked

theorem checked_visit (context : PassContext) (tag : String) (state : PassState) (entity : EntityId) :
    (state.visit context tag entity).matcher.checked = state.matcher.checked.insert entity tag :=
  (turns_foldl_checkSeed entity (fun _ listed => listed) ([], state.noted tag entity)).checked

/-- The entities of the trials, and no others, are noted. -/
theorem checked_foldl_visit (entities : List EntityId) : ∀ (state : PassState) (id : EntityId),
    (entities.foldl (visit context tag) state).matcher.checked[id]? =
      if id ∈ entities then some tag else state.matcher.checked[id]? := by
  induction entities with
  | nil => exact fun _ _ => rfl
  | cons entity rest ih =>
    intro state id
    rw [List.foldl_cons, ih, checked_visit, Std.ExtTreeMap.getElem?_insert]
    simp only [Std.compare_eq_iff_eq, List.mem_cons]
    by_cases here : id = entity
    · simp [here]
    · simp [here, Ne.symm here]

theorem entities_trialsOf (entities : List EntityId) : ∀ state : PassState,
    (trialsOf context tag entities state).map Prod.fst = entities := by
  induction entities with
  | nil => exact fun _ => rfl
  | cons entity rest ih => exact fun state => congrArg (entity :: ·) (ih _)

theorem checked_rounds (dirty : Std.ExtTreeSet EntityId) (limit : Nat) :
    ∀ (seen : Std.ExtTreeSet EntityId) (state : PassState) (id : EntityId),
      (rounds context tag dirty limit seen state).matcher.checked[id]? =
        if id ∈ (roundTrials context tag dirty limit seen state).map Prod.fst then some tag
        else state.matcher.checked[id]? := by
  induction limit with
  | zero => exact fun _ _ _ => rfl
  | succ limit ih =>
    intro seen state id
    unfold roundTrials rounds
    dsimp only
    split
    · rfl
    · rw [ih, checked_foldl_visit, List.map_append, entities_trialsOf]
      simp only [List.mem_append]
      by_cases later : id ∈ (roundTrials context tag dirty limit
          (seen.insertMany (state.pending tag dirty seen))
          ((state.pending tag dirty seen).foldl (visit context tag) state)).map Prod.fst
      · simp [later]
      · simp [later]

/-! ## Who is looked at -/

/-- Whoever is looked at was not noted under the tag before, or has changed. -/
theorem due_of_trial (dirty : Std.ExtTreeSet EntityId) (limit : Nat) {id : EntityId} :
    ∀ (seen : Std.ExtTreeSet EntityId) (state : PassState),
      id ∈ (roundTrials context tag dirty limit seen state).map Prod.fst →
        seen.contains id = false ∧ (dirty.contains id = true ∨ state.matcher.checked[id]? ≠ some tag)
    := by
  induction limit with
  | zero => simp [roundTrials]
  | succ limit ih =>
    intro seen state member
    unfold roundTrials at member
    dsimp only at member
    split at member
    · cases member
    · rw [List.map_append, entities_trialsOf] at member
      rcases List.mem_append.1 member with here | later
      · have holds := (List.mem_filter.1 here).2
        simp only [Bool.and_eq_true, Bool.not_eq_true', Bool.or_eq_true, bne_iff_ne] at holds
        exact ⟨holds.1.1, holds.2⟩
      · obtain ⟨unseen, due⟩ := ih _ _ later
        rw [checked_foldl_visit] at due
        have absent : id ∉ state.pending tag dirty seen ∧ ¬seen.contains id = true := by
          have out := Bool.eq_false_iff.1 unseen
          simpa [Std.ExtTreeSet.contains_insertMany_list, not_or, and_comm] using out
        rw [if_neg absent.1] at due
        exact ⟨Bool.eq_false_iff.2 absent.2, due⟩

/-- While there are checks at all, whoever is pending is looked at in the first round. -/
theorem mem_trials_of_pending {dirty seen : Std.ExtTreeSet EntityId} {id : EntityId}
    (member : id ∈ state.pending tag dirty seen) (spare : state.Spare) (limit : Nat) :
    id ∈ (roundTrials context tag dirty (limit + 1) seen state).map Prod.fst := by
  have going : ¬((state.pending tag dirty seen).isEmpty || state.matcher.budget = 0) = true := by
    unfold Spare at spare
    unfold Matcher.budget
    simp [List.ne_nil_of_mem member]
    omega
  unfold roundTrials
  dsimp only
  rw [if_neg going, List.map_append, entities_trialsOf]
  exact List.mem_append_left _ member

end PassState

namespace Matcher

/-- The trials of a pass. -/
def trials (matcher : Matcher) (relation : Relation) (catalog : Catalog) (options : PassOptions)
    (dirty : Std.ExtTreeSet EntityId) : List Trial :=
  PassState.roundTrials ⟨catalog, options.tentative⟩ options.tag dirty
    ((matcher.prepare options).maxChecks + 2) ∅ ⟨matcher.prepare options, relation, .empty⟩

theorem maxChecks_prepare (matcher : Matcher) (options : PassOptions) :
    (matcher.prepare options).maxChecks = matcher.maxChecks := by
  unfold prepare
  split
  · rfl
  · rfl

/-- A pass notes the entities that it looks at. These are all accepted ones that were not noted under
its tag before or have changed, if it has checks at all, and those that come about. Each is tried at
the first places of the catalog: at all of them as long as there are checks, so in a pass that has
checks left in the end, and at none after one that was cut off. -/
theorem notes_tried (matcher : Matcher) (relation : Relation) (catalog : Catalog)
    (options : PassOptions) (dirty : Std.ExtTreeSet EntityId) :
    (∀ id, (matcher.evaluate relation catalog options dirty).matcher.checked[id]? =
      if id ∈ (matcher.trials relation catalog options dirty).map Prod.fst then some options.tag
      else (matcher.prepare options).checked[id]?) ∧
    (∀ trial ∈ matcher.trials relation catalog options dirty,
      trial.2 <+: PassState.seedPlaces catalog) ∧
    PassState.CutOff catalog (matcher.trials relation catalog options dirty) ∧
    ((matcher.evaluate relation catalog options dirty).matcher.checks < matcher.maxChecks →
      ∀ trial ∈ matcher.trials relation catalog options dirty,
        trial.2 = PassState.seedPlaces catalog) ∧
    (relation.Forest → 0 < matcher.maxChecks → ∀ id entity, relation.get? id = some entity →
      entity.isTentative = false →
        (id ∈ (matcher.trials relation catalog options dirty).map Prod.fst ↔
          dirty.contains id = true ∨ (matcher.prepare options).checked[id]? ≠ some options.tag)) := by
  obtain ⟨cut, complete⟩ := @PassState.cutOff_roundTrials ⟨catalog, options.tentative⟩ options.tag
    dirty ((matcher.prepare options).maxChecks + 2) ∅ ⟨matcher.prepare options, relation, .empty⟩
  have limit := (PassState.advances_rounds ⟨catalog, options.tentative⟩ options.tag dirty
    ((matcher.prepare options).maxChecks + 2) ∅ ⟨matcher.prepare options, relation, .empty⟩).limit
  refine ⟨fun id => PassState.checked_rounds dirty _ ∅ _ id,
    PassState.prefix_roundTrials dirty _ ∅ _, cut, fun left => complete ?_,
    fun forest some_ id entity found accepted => ⟨fun member => ?_, fun due => ?_⟩⟩
  · exact left.trans_eq ((maxChecks_prepare matcher options).symm.trans limit.symm)
  · exact (PassState.due_of_trial dirty _ ∅ _ member).2
  · refine PassState.mem_trials_of_pending ?_ ?_ _
    · have acyclic := (Relation.checkCycles_iff forest.named forest.grounded).2 forest.acyclic
      refine List.mem_filter.2 ⟨Relation.mem_topological acyclic found, ?_⟩
      dsimp only
      simpa [found, accepted] using due
    · exact some_.trans_eq (maxChecks_prepare matcher options).symm

/-- From each p follows an r below it. -/
def below : Catalog := .unchecked ⟨letters, [
  letterLaw 100 [⟨1⟩] [letterNode 1 1 none none, letterNode 3 3 (some ⟨1⟩) none]]⟩

theorem valid_below : below.Valid := Catalog.valid_unchecked rfl rfl rfl

def twoLetters : Relation := letterRelation [letterRecord 1 1 none, letterRecord 2 1 none]

theorem firm_twoLetters : twoLetters.Firm := firm_letterRelation rfl (by decide +kernel)

/-- With ten checks both p are tried. A single one goes to the first; the second is looked at, but
not tried, and left out of the next pass. -/
theorem notes_tried_twoLetters :
    (∀ trial ∈ (empty 10).trials twoLetters below .standard ∅,
      trial.2 = PassState.seedPlaces below) ∧
    (⟨2⟩ ∈ ((empty 1).trials twoLetters below .standard ∅).map Prod.fst ∧
      ((empty 1).evaluate twoLetters below .standard ∅).matcher.checked[(⟨2⟩ : EntityId)]? =
        some PassOptions.standard.tag) ∧
    ⟨2⟩ ∉ (((empty 1).evaluate twoLetters below .standard ∅).matcher.trials twoLetters below
      .standard ∅).map Prod.fst := by
  have forest := firm_twoLetters.forest
  obtain ⟨-, -, -, complete, -⟩ := notes_tried (empty 10) twoLetters below .standard ∅
  obtain ⟨noted, -, -, -, due⟩ := notes_tried (empty 1) twoLetters below .standard ∅
  obtain ⟨-, -, -, -, dueAgain⟩ := notes_tried
    ((empty 1).evaluate twoLetters below .standard ∅).matcher twoLetters below .standard ∅
  obtain ⟨second, found⟩ := Relation.contains_iff.1
    (show twoLetters.contains ⟨2⟩ = true by decide +kernel)
  have accepted := firm_twoLetters.accepted ⟨2⟩ second found
  have looked := (due forest (by decide) ⟨2⟩ second found accepted).2 (.inr (by decide +kernel))
  have checked : ((empty 1).evaluate twoLetters below .standard ∅).matcher.checked[
      (⟨2⟩ : EntityId)]? = some PassOptions.standard.tag := by
    rw [noted, if_pos looked]
  refine ⟨complete (by decide +kernel), ⟨looked, checked⟩, fun again => ?_⟩
  rcases (dueAgain forest (by decide +kernel) ⟨2⟩ second found accepted).1 again with changed | new
  · exact absurd changed (by decide)
  · exact new checked

/-- An entity that was noted was not always tried. -/
theorem not_forall_tried : ¬∀ (catalog : Catalog) (relation : Relation) (matcher : Matcher)
    (options : PassOptions) (dirty : Std.ExtTreeSet EntityId) (id : EntityId), catalog.Valid →
      relation.Forest → (matcher.prepare options).checked[id]? ≠ some options.tag →
        (matcher.evaluate relation catalog options dirty).matcher.checked[id]? = some options.tag →
          ∃ trial ∈ matcher.trials relation catalog options dirty, trial.1 = id ∧
            trial.2 = PassState.seedPlaces catalog := by
  intro all
  have tried := all below twoLetters (empty 1) .standard ∅ ⟨2⟩ valid_below firm_twoLetters.forest
    (by decide +kernel) (by decide +kernel)
  exact absurd tried (by decide +kernel)

end Matcher

end ConceptLaws
