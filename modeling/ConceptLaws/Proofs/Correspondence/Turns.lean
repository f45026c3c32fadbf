import ConceptLaws.Proofs.Correspondence.Appending
import ConceptLaws.Proofs.Correspondence.Completeness
import Mathlib.Logic.Relation

/-! Turns of a pass.
In a turn a check is spent, and one correspondence may be made: a seed or a union. If it fills a
predicate set its conclusions are appended in the same turn. Whatever a pass does for an entity is a
sequence of such turns; other correspondences than the new one stay as they are. -/

namespace ConceptLaws

/-- What became of a new correspondence by the end of its turn. -/
structure Correspondence.Bears (birth : Correspondence) (fills : Bool) (map : Correspondence) :
    Prop where
  law : map.law = birth.law
  deepPredicates : map.deepPredicates = birth.deepPredicates
  kept : ∀ (node : LawNodeId) (entity : EntityId),
    birth.entityOf[node]? = some entity → map.entityOf[node]? = some entity
  satisfied : map.satisfied = fills
  coincides : fills = false → birth.Coincides map

namespace PassState

/-- A correspondence that a turn may make: a seed at a pair where it may sow, or a union of two that
are there. The flag tells whether it fills a predicate set. -/
inductive Begets (context : PassContext) (fresh : Pair → Prop) (relation : Relation)
    (spent : Matcher) : Correspondence → Bool → Prop
  | seed {law : LawId} {pair : Pair} {plan : PairPlan}
      (place : (law, pair.node) ∈ seedPlaces context.catalog) (allowed : fresh pair)
      (planned : (Correspondence.empty law).plan? relation context.catalog pair = some plan) :
      Begets context fresh relation spent (.ofPlan law pair.node plan)
        (decide ((Correspondence.ofPlan law pair.node plan).Fills context.catalog))
  | union {left right : MapId} {leftMap rightMap merged : Correspondence} {exact : Bool}
      (foundLeft : spent.get? left = some leftMap) (foundRight : spent.get? right = some rightMap)
      (unites : spent.Unites context.catalog leftMap rightMap merged exact) :
      Begets context fresh relation spent merged exact

/-- Takes a correspondence in, and appends its conclusions if it fills a predicate set. -/
def settleTaken (context : PassContext) (state : PassState) (taken : Matcher) (id : MapId)
    (fills : Bool) : PassState :=
  if fills then ({ state with matcher := taken }.append context id).2
  else { state with matcher := taken }

inductive Turn (context : PassContext) (fresh : Pair → Prop) (state : PassState) : PassState → Prop
  | check {spent : Matcher} (paid : state.matcher.spend? = some spent) :
      Turn context fresh state { state with matcher := spent }
  | take {spent taken : Matcher} {birth : Correspondence} {fills : Bool}
      {shared : Std.ExtTreeSet MapId} (paid : state.matcher.spend? = some spent)
      (begets : Begets context fresh state.relation spent birth fills)
      (takes : spent.TakesIn taken { birth with id := spent.nextMap, intersections := shared })
      (checked : taken.checked = spent.checked) :
      Turn context fresh state (state.settleTaken context taken spent.nextMap fills)

abbrev Turns (context : PassContext) (fresh : Pair → Prop) : PassState → PassState → Prop :=
  Relation.ReflTransGen (Turn context fresh)

variable {context : PassContext} {fresh : Pair → Prop} {state later : PassState}

theorem Begets.mono {wider : Pair → Prop} {relation : Relation} {spent : Matcher}
    {birth : Correspondence} {fills : Bool} (begets : Begets context fresh relation spent birth fills)
    (allowed : ∀ pair, fresh pair → wider pair) :
    Begets context wider relation spent birth fills := by
  cases begets with
  | seed place held planned => exact .seed place (allowed _ held) planned
  | union foundLeft foundRight unites => exact .union foundLeft foundRight unites

theorem Turn.mono {wider : Pair → Prop} (turn : Turn context fresh state later)
    (allowed : ∀ pair, fresh pair → wider pair) : Turn context wider state later := by
  cases turn with
  | check paid => exact .check paid
  | take paid begets takes checked => exact .take paid (begets.mono allowed) takes checked

theorem Turns.mono {wider : Pair → Prop} (turns : Turns context fresh state later)
    (allowed : ∀ pair, fresh pair → wider pair) : Turns context wider state later := by
  induction turns with
  | refl => exact .refl
  | tail _ turn ih => exact ih.tail (turn.mono allowed)

/-- A new correspondence is open. -/
theorem Begets.open_ {relation : Relation} {spent : Matcher} {birth : Correspondence} {fills : Bool}
    (begets : Begets context fresh relation spent birth fills) : birth.satisfied = false := by
  cases begets with
  | seed place allowed planned => exact Correspondence.satisfied_ofPlan _ _ _
  | union foundLeft foundRight unites => exact unites.satisfied_merged

/-! ## A pass takes turns -/

theorem turns_foldl {α : Type} {step : PassState → α → PassState}
    (turns : ∀ state item, Turns context fresh state (step state item)) (items : List α)
    (state : PassState) : Turns context fresh state (items.foldl step state) := by
  induction items generalizing state with
  | nil => exact .refl
  | cons first rest ih => exact (turns state first).trans (ih _)

/-- Uniting two correspondences is a turn. -/
theorem turn_unite {spent : Matcher} (paid : state.matcher.spend? = some spent) {left right : MapId}
    {leftMap rightMap merged : Correspondence} {exact : Bool}
    (foundLeft : spent.get? left = some leftMap) (foundRight : spent.get? right = some rightMap)
    (unites : spent.Unites context.catalog leftMap rightMap merged exact) :
    Turn context fresh state (state.settleTaken context
      (spent.allocateUnion leftMap rightMap merged).2 spent.nextMap exact) :=
  .take paid (.union foundLeft foundRight unites) ((spent.takesIn_allocate merged).update rfl rfl) rfl

theorem tryMerge_eq {spent : Matcher} (paid : state.matcher.spend? = some spent)
    {left right : MapId} {leftMap rightMap merged : Correspondence} {exact : Bool}
    (foundLeft : spent.get? left = some leftMap) (foundRight : spent.get? right = some rightMap)
    (different : left ≠ right)
    (unites : spent.Unites context.catalog leftMap rightMap merged exact)
    (further : PassState → MapId → PassState) :
    tryMerge context further left state right =
      if exact then state.settleTaken context (spent.allocateUnion leftMap rightMap merged).2
        spent.nextMap exact
      else further (state.settleTaken context (spent.allocateUnion leftMap rightMap merged).2
        spent.nextMap exact) spent.nextMap := by
  have united := Matcher.union?_eq_some.2 unites
  unfold tryMerge mergeWith
  rw [paid]
  dsimp only
  rw [foundLeft, foundRight]
  dsimp only
  rw [if_neg different, united]
  cases exact with
  | true => rfl
  | false => rfl

/-- Trying to merge is a turn, after which what came out of it may be merged further on. -/
theorem turns_tryMerge {further : PassState → MapId → PassState}
    (turns : ∀ state id, Turns context fresh state (further state id)) (left : MapId)
    (state : PassState) (right : MapId) :
    Turns context fresh state (tryMerge context further left state right) := by
  unfold tryMerge
  cases paid : state.matcher.spend? with
  | none => exact .refl
  | some spent =>
    dsimp only
    unfold mergeWith
    dsimp only
    split
    · rename_i leftMap rightMap foundLeft foundRight
      split
      · exact .single (.check paid)
      · split
        · exact .single (.check paid)
        · rename_i merged exact united
          have turn : Turn context fresh state (state.settleTaken context
              (spent.allocateUnion leftMap rightMap merged).2 spent.nextMap exact) :=
            turn_unite paid foundLeft foundRight (Matcher.union?_eq_some.1 united)
          refine .trans (.single turn) ?_
          cases exact with
          | true => exact .refl
          | false => exact turns _ _
    · exact .single (.check paid)

theorem turns_mergeAll (depth : Nat) (state : PassState) (id : MapId) :
    Turns context fresh state (mergeAll context depth state id) := by
  induction depth generalizing state id with
  | zero => exact .refl
  | succ depth ih =>
    unfold mergeAll
    split
    · exact .refl
    · exact turns_foldl (fun state right => turns_tryMerge ih id state right) _ state

/-- Developing a seed is a turn if it fills a predicate set; else it is merged after it was taken in.
-/
theorem turn_sow (state : PassState) {spent : Matcher}
    (paid : state.matcher.spend? = some spent) {law : LawId} {pair : Pair} {plan : PairPlan}
    (place : (law, pair.node) ∈ seedPlaces context.catalog) (allowed : fresh pair)
    (planned : (Correspondence.empty law).plan? state.relation context.catalog pair = some plan) :
    Turn context fresh state (state.settleTaken context
      (spent.allocate (.ofPlan law pair.node plan)).2 spent.nextMap
      (decide ((Correspondence.ofPlan law pair.node plan).Fills context.catalog))) :=
  .take paid (.seed place allowed planned) (spent.takesIn_allocate _) rfl

theorem develop_eq (context : PassContext) (state : PassState) (spent : Matcher) (law : LawId)
    (node : LawNodeId) (plan : PairPlan) :
    develop context { state with matcher := (spent.allocate (.ofPlan law node plan)).2 }
        spent.nextMap =
      if (Correspondence.ofPlan law node plan).Fills context.catalog then
        state.settleTaken context (spent.allocate (.ofPlan law node plan)).2 spent.nextMap
          (decide ((Correspondence.ofPlan law node plan).Fills context.catalog))
      else (state.settleTaken context (spent.allocate (.ofPlan law node plan)).2 spent.nextMap
          (decide ((Correspondence.ofPlan law node plan).Fills context.catalog))).checkIntersections
            context spent.nextMap := by
  rw [develop_sown]
  unfold settleTaken
  split
  · rename_i fills
    simp [fills]
  · rename_i fails
    simp [fails]

theorem turns_develop (context : PassContext) (state : PassState) (spent : Matcher) (law : LawId)
    (node : LawNodeId) (plan : PairPlan) :
    Turns context fresh
      (state.settleTaken context (spent.allocate (.ofPlan law node plan)).2 spent.nextMap
        (decide ((Correspondence.ofPlan law node plan).Fills context.catalog)))
      (develop context { state with matcher := (spent.allocate (.ofPlan law node plan)).2 }
        spent.nextMap) := by
  rw [develop_eq]
  split
  · exact .refl
  · exact turns_mergeAll _ _ _

theorem turns_checkSeed (entity : EntityId) (progress : List MapId × PassState)
    {place : LawId × LawNodeId} (listed : place ∈ seedPlaces context.catalog) :
    Turns context (fun pair => pair = ⟨entity, place.2⟩) progress.2
      (checkSeed context entity progress place).2 := by
  rcases checkSeed_cases context entity progress place with
    ⟨-, same⟩ | ⟨spent, paid, ⟨-, same⟩ | ⟨plan, planned, same⟩⟩
  · rw [same]
  · rw [same]
    exact .single (.check paid)
  · rw [same]
    have here : (⟨entity, place.2⟩ : Pair) = ⟨entity, place.2⟩ := rfl
    exact .trans (.single (turn_sow progress.2 paid listed here planned))
      (turns_develop context progress.2 spent place.1 place.2 plan)

/-! ## The effect of a turn -/

/-- A correspondence was made under the next identifier, and the others were left alone. -/
structure Makes (state later : PassState) (birth : Correspondence) (fills : Bool) : Prop where
  next : later.matcher.nextMap = state.matcher.nextMap.next
  limit : later.matcher.maxChecks = state.matcher.maxChecks
  checks : later.matcher.checks = state.matcher.checks + 1
  checked : later.matcher.checked = state.matcher.checked
  listed : ∀ pair query, query ∈ later.matcher.registered pair ↔
    query ∈ state.matcher.registered pair ∨ (query = state.matcher.nextMap ∧ pair ∈ birth.pairs)
  others : ∀ query, query ≠ state.matcher.nextMap →
    later.matcher.get? query = state.matcher.get? query
  found : ∃ map, later.matcher.get? state.matcher.nextMap = some map ∧
    map.id = state.matcher.nextMap ∧ birth.Bears fills map

/-- What is there after a correspondence was made is that one, or was there before. -/
theorem Makes.of_get? {birth map : Correspondence} {fills : Bool} {id : MapId}
    (makes : state.Makes later birth fills) (found : later.matcher.get? id = some map) :
    (id = state.matcher.nextMap ∧ map.id = id ∧ birth.Bears fills map) ∨
      state.matcher.get? id = some map := by
  by_cases same : id = state.matcher.nextMap
  · subst same
    obtain ⟨made, foundMade, named, bears⟩ := makes.found
    obtain rfl := Option.some.inj (found.symm.trans foundMade)
    exact Or.inl ⟨rfl, named, bears⟩
  · exact Or.inr ((makes.others id same).symm.trans found)

theorem makes_settleTaken {spent taken : Matcher} {birth : Correspondence} {fills : Bool}
    {shared : Std.ExtTreeSet MapId} (paid : state.matcher.spend? = some spent)
    (open_ : birth.satisfied = false)
    (takes : spent.TakesIn taken { birth with id := spent.nextMap, intersections := shared })
    (checked : taken.checked = spent.checked) :
    state.Makes (state.settleTaken context taken spent.nextMap fills) birth fills := by
  obtain ⟨-, rfl⟩ := Matcher.spend?_eq_some paid
  have here : taken.get? state.matcher.nextMap =
      some { birth with id := state.matcher.nextMap, intersections := shared } :=
    (takes.found _).trans (if_pos rfl)
  have elsewhere (query : MapId) (different : query ≠ state.matcher.nextMap) :
      taken.get? query = state.matcher.get? query := (takes.found query).trans (if_neg different)
  unfold settleTaken
  cases fills with
  | false =>
    exact ⟨takes.next, takes.limit, takes.checks, checked, takes.listed, elsewhere, _, here, rfl,
      rfl, rfl, fun _ _ held => held, open_, fun _ => ⟨rfl, rfl, rfl, rfl⟩⟩
  | true =>
    have named : NamedAt { state with matcher := taken } state.matcher.nextMap := by
      intro map found
      obtain rfl := Option.some.inj (here.symm.trans found)
      rfl
    obtain ⟨ripens, satisfied⟩ := named.ripensAt_append context
    obtain ⟨after, found, ripe⟩ := ripens.of_get? here
    refine ⟨ripens.next.trans takes.next, ripens.limit.trans takes.limit,
      ripens.checks.trans takes.checks, ripens.checked.trans checked, fun pair query => ?_,
      fun query different => (ripens.others query different).trans (elsewhere query different),
      after, found, ripe.id, ripe.law, ripe.deepPredicates, ripe.kept, satisfied after found,
      fun impossible => by cases impossible⟩
    have same : (({ state with matcher := taken } : PassState).append context
        state.matcher.nextMap).2.matcher.registered pair = taken.registered pair := by
      unfold Matcher.registered
      rw [ripens.registry]
    exact same ▸ takes.listed pair query

theorem makes_unite {spent : Matcher} (paid : state.matcher.spend? = some spent)
    {left right merged : Correspondence} {exact : Bool}
    (unites : spent.Unites context.catalog left right merged exact) :
    state.Makes (state.settleTaken context (spent.allocateUnion left right merged).2 spent.nextMap
      exact) merged exact :=
  makes_settleTaken paid unites.satisfied_merged ((spent.takesIn_allocate merged).update rfl rfl) rfl

theorem makes_sow {spent : Matcher} (paid : state.matcher.spend? = some spent) (law : LawId)
    (node : LawNodeId) (plan : PairPlan) (fills : Bool) :
    state.Makes (state.settleTaken context (spent.allocate (.ofPlan law node plan)).2 spent.nextMap
      fills) (.ofPlan law node plan) fills :=
  makes_settleTaken paid (Correspondence.satisfied_ofPlan law node plan) (spent.takesIn_allocate _)
    rfl

/-! ## What only goes on -/

/-- Entities and what was appended stay, and checks are spent. -/
structure Advances (state later : PassState) : Prop where
  wider : state.relation.Extends later.relation
  appended : state.outcome.appended <+: later.outcome.appended
  limit : later.matcher.maxChecks = state.matcher.maxChecks
  checks : state.matcher.checks ≤ later.matcher.checks

theorem advances_refl (state : PassState) : state.Advances state :=
  ⟨state.relation.extends_refl, List.prefix_refl _, rfl, Nat.le_refl _⟩

theorem Advances.trans {first second third : PassState} (earlier : first.Advances second)
    (later : second.Advances third) : first.Advances third where
  wider := earlier.wider.trans later.wider
  appended := earlier.appended.trans later.appended
  limit := later.limit.trans earlier.limit
  checks := Nat.le_trans earlier.checks later.checks

theorem Advances.spare (advances : state.Advances later) (spare : later.Spare) : state.Spare := by
  have checks := advances.checks
  have limit := advances.limit
  unfold Spare at *
  omega

theorem Advances.heads {catalog : Catalog} {ending : Ending catalog}
    (advances : state.Advances later) (heads : later.Heads ending) : state.Heads ending :=
  ⟨advances.wider.trans heads.wider, advances.appended.trans heads.begun⟩

theorem advances_append (context : PassContext) (state : PassState) (id : MapId) :
    state.relation.Extends (state.append context id).2.relation ∧
      state.outcome.appended <+: (state.append context id).2.outcome.appended := by
  cases found : state.matcher.get? id with
  | none =>
    unfold append
    rw [found]
    exact ⟨state.relation.extends_refl, List.prefix_refl _⟩
  | some map =>
    have wider := extends_appendAll context id (context.catalog.conclusions map.law)
      (state.markSatisfied context map)
    have begun := isPrefix_appended_appendAll context id (context.catalog.conclusions map.law)
      (state.markSatisfied context map)
    rw [relation_markSatisfied] at wider
    rw [appended_markSatisfied] at begun
    rw [append_eq found]
    exact ⟨wider, begun⟩

theorem Turn.advances (turn : Turn context fresh state later) : state.Advances later := by
  cases turn with
  | check paid =>
    obtain ⟨-, rfl⟩ := Matcher.spend?_eq_some paid
    exact ⟨state.relation.extends_refl, List.prefix_refl _, rfl, Nat.le_succ _⟩
  | @take spent taken birth fills shared paid begets takes checked =>
    have makes := @makes_settleTaken context state spent taken birth fills shared paid begets.open_
      takes checked
    refine ⟨?_, ?_, makes.limit, by rw [makes.checks]; exact Nat.le_succ _⟩
    · unfold settleTaken
      split
      · exact (advances_append context { state with matcher := taken } spent.nextMap).1
      · exact state.relation.extends_refl
    · unfold settleTaken
      split
      · exact (advances_append context { state with matcher := taken } spent.nextMap).2
      · exact List.prefix_refl _

theorem Turns.advances (turns : Turns context fresh state later) : state.Advances later := by
  induction turns with
  | refl => exact state.advances_refl
  | tail _ turn ih => exact ih.trans turn.advances

/-! ## Rounds -/

theorem turns_foldl_checkSeed (entity : EntityId) {places : List (LawId × LawNodeId)}
    (listed : ∀ place ∈ places, place ∈ seedPlaces context.catalog)
    (progress : List MapId × PassState) :
    Turns context (fun pair => pair.entity = entity) progress.2
      (places.foldl (checkSeed context entity) progress).2 := by
  induction places generalizing progress with
  | nil => exact .refl
  | cons first rest ih =>
    have head := turns_checkSeed entity progress (listed first List.mem_cons_self)
    exact (head.mono fun pair here => congrArg Pair.entity here).trans
      (ih (fun place member => listed place (List.mem_cons_of_mem first member)) _)

/-- What turns and notes keep, a visit keeps. -/
theorem keeps_visit {motive : PassState → Prop}
    (turn : ∀ state later, motive state → Turn context anywhere state later → motive later)
    (note : ∀ state tag entity, motive state → motive (state.noted tag entity)) (tag : String)
    {state : PassState} (holds : motive state) (entity : EntityId) :
    motive (state.visit context tag entity) := by
  have turns : Turns context anywhere (state.noted tag entity) (state.visit context tag entity) :=
    (turns_foldl_checkSeed entity (fun _ listed => listed) ([], state.noted tag entity)).mono
      fun _ _ => trivial
  have start := note state tag entity holds
  generalize state.visit context tag entity = later at *
  induction turns with
  | refl => exact start
  | tail _ last ih => exact turn _ _ ih last

/-- What visits keep, rounds keep. -/
theorem keeps_rounds {motive : PassState → Prop} {tag : String}
    (visit : ∀ state entity, motive state → motive (state.visit context tag entity))
    (dirty : Std.ExtTreeSet EntityId) (limit : Nat) :
    ∀ (seen : Std.ExtTreeSet EntityId) {state : PassState}, motive state →
      motive (rounds context tag dirty limit seen state) := by
  have visits (entities : List EntityId) : ∀ {state : PassState}, motive state →
      motive (entities.foldl (PassState.visit context tag) state) := by
    induction entities with
    | nil => exact fun holds => holds
    | cons first rest ih => exact fun holds => ih (visit _ first holds)
  induction limit with
  | zero => exact fun _ _ holds => holds
  | succ limit ih =>
    intro seen state holds
    unfold rounds
    dsimp only
    split
    · exact holds
    · exact ih _ (visits _ holds)

theorem advances_noted (state : PassState) (tag : String) (entity : EntityId) :
    state.Advances (state.noted tag entity) :=
  ⟨state.relation.extends_refl, List.prefix_refl _, rfl, Nat.le_refl _⟩

theorem advances_visit (context : PassContext) (tag : String) (state : PassState)
    (entity : EntityId) : state.Advances (state.visit context tag entity) :=
  keeps_visit (fun _ _ before turn => before.trans turn.advances)
    (fun _ tag entity before => before.trans (advances_noted _ tag entity)) tag state.advances_refl
    entity

theorem advances_rounds (context : PassContext) (tag : String) (dirty : Std.ExtTreeSet EntityId)
    (limit : Nat) (seen : Std.ExtTreeSet EntityId) (state : PassState) :
    state.Advances (rounds context tag dirty limit seen state) :=
  keeps_rounds (fun state entity before => before.trans (advances_visit context tag state entity))
    dirty limit seen state.advances_refl

end PassState

end ConceptLaws
