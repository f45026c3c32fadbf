import ConceptLaws.Proofs.Correspondence.Moves

/-! Events and acts of a pass.
A correspondence is made under an identifier, and its append creates entities and reuses others. The
events are read off the steps of the pass as they are taken, not off what the entities note of them.
A pass does one thing after the other: it notes an entity, spends a check, takes in a
correspondence, marks one satisfied, or appends a branch. The events of a pass are those of its acts.
-/

namespace ConceptLaws

/-- A correspondence was taken in, or its append created or reused an entity. -/
inductive PassEvent where
  | made (map : MapId)
  | claimed (map : MapId) (entity : EntityId)
deriving Repr, DecidableEq

namespace PassEvent

def made? : PassEvent → Option MapId
  | made map => some map
  | claimed _ _ => none

/-- The entities that the append of a correspondence created or reused so far; the correspondence
that bears the identifier now is the one that was made last. -/
def note (map : MapId) (entities : List EntityId) : PassEvent → List EntityId
  | made other => if other = map then [] else entities
  | claimed other entity => if other = map then entities ++ [entity] else entities

def claimsOf (map : MapId) (events : List PassEvent) : List EntityId := events.foldl (note map) []

def claims (map : MapId) (pairs : List Pair) : List PassEvent :=
  pairs.map fun pair => claimed map pair.entity

/-- The events of a loop. -/
def ofLoop {State Item : Type} (step : State → Item → State)
    (events : State → Item → List PassEvent) : List Item → State → List PassEvent
  | [], _ => []
  | first :: rest, state => events state first ++ ofLoop step events rest (step state first)

end PassEvent

namespace PassState

open PassEvent

/-- The append of a branch creates entities and then reuses others, unless a step fails. -/
def branchEvents (context : PassContext) (state : PassState) (id : MapId) (node : LawNodeId) :
    List PassEvent :=
  match state.matcher.get? id with
  | none => []
  | some map =>
    match map.planBranch? state.relation context.catalog node with
    | none => []
    | some (_, plan) =>
      match (BranchProgress.start state.relation).run context.catalog map plan.steps with
      | (false, _) => []
      | (true, progress) =>
        claims id (progress.created ++ plan.steps.filterMap BranchStep.reused?)

def appendEvents (context : PassContext) (state : PassState) (id : MapId) : List PassEvent :=
  match state.matcher.get? id with
  | none => []
  | some map =>
    ofLoop (fun state node => (state.appendBranch context id node).2)
      (fun state node => state.branchEvents context id node)
      (context.catalog.conclusions map.law) (state.markSatisfied context map)

def mergeWithEvents (context : PassContext) (furtherEvents : PassState → MapId → List PassEvent)
    (state : PassState) (left right : MapId) : List PassEvent :=
  match state.matcher.get? left, state.matcher.get? right with
  | some leftMap, some rightMap =>
    if left = right then []
    else match state.matcher.union? context.catalog leftMap rightMap with
      | none => []
      | some (merged, exact) =>
        let (id, matcher) := state.matcher.allocateUnion leftMap rightMap merged
        let state := { state with matcher }
        made id :: if exact then state.appendEvents context id else furtherEvents state id
  | _, _ => []

def tryMergeEvents (context : PassContext) (furtherEvents : PassState → MapId → List PassEvent)
    (left : MapId) (state : PassState) (right : MapId) : List PassEvent :=
  match state.matcher.spend? with
  | none => []
  | some matcher => mergeWithEvents context furtherEvents { state with matcher } left right

def mergeAllEvents (context : PassContext) : Nat → PassState → MapId → List PassEvent
  | 0, _, _ => []
  | depth + 1, state, id =>
    match state.matcher.get? id with
    | none => []
    | some map =>
      ofLoop (tryMerge context (mergeAll context depth) id)
        (tryMergeEvents context (mergeAllEvents context depth) id)
        (state.matcher.candidates map) state

def developEvents (context : PassContext) (state : PassState) (id : MapId) : List PassEvent :=
  match state.matcher.get? id with
  | none => []
  | some map =>
    if context.catalog.coverage map.law (map.predicateNodes context.catalog) = .exact then
      state.appendEvents context id
    else mergeAllEvents context state.matcher.budget state id

def checkSeedEvents (context : PassContext) (entity : EntityId)
    (progress : List MapId × PassState) (place : LawId × LawNodeId) : List PassEvent :=
  match progress.2.matcher.spend? with
  | none => []
  | some matcher =>
    match matcher.seed progress.2.relation context.catalog place.1 ⟨entity, place.2⟩ with
    | (none, _) => []
    | (some id, matcher) => made id :: developEvents context { progress.2 with matcher } id

/-- The events of a visit, after the entity was noted as checked. -/
def visitEvents (context : PassContext) (tag : String) (state : PassState) (entity : EntityId) :
    List PassEvent :=
  ofLoop (checkSeed context entity) (checkSeedEvents context entity) (seedPlaces context.catalog)
    ([], state.noted tag entity)

def roundsEvents (context : PassContext) (tag : String) (dirty : Std.ExtTreeSet EntityId) :
    Nat → Std.ExtTreeSet EntityId → PassState → List PassEvent
  | 0, _, _ => []
  | limit + 1, seen, state =>
    let pending := state.pending tag dirty seen
    if pending.isEmpty || state.matcher.budget = 0 then []
    else
      ofLoop (visit context tag) (visitEvents context tag) pending state ++
        roundsEvents context tag dirty limit (seen.insertMany pending)
          (pending.foldl (visit context tag) state)

end PassState

/-- The events of a pass. -/
def Matcher.evaluateEvents (matcher : Matcher) (relation : Relation) (catalog : Catalog)
    (options : PassOptions) (dirty : Std.ExtTreeSet EntityId) : List PassEvent :=
  PassState.roundsEvents ⟨catalog, options.tentative⟩ options.tag dirty
    ((matcher.prepare options).maxChecks + 2) ∅ ⟨matcher.prepare options, relation, .empty⟩

end ConceptLaws

namespace ConceptLaws.PassState

open PassEvent

/-- A single act with its events. -/
inductive Act (context : PassContext) (state : PassState) : List PassEvent → PassState → Prop
  | note (tag : String) (entity : EntityId) : Act context state [] (state.noted tag entity)
  | spend {spent : Matcher} (paid : state.matcher.spend? = some spent) :
      Act context state [] { state with matcher := spent }
  | sow {law : LawId} {pair : Pair} {plan : PairPlan}
      (planned : (Correspondence.empty law).plan? state.relation context.catalog pair =
        some plan)
      (place : (law, pair.node) ∈ seedPlaces context.catalog)
      (unseeded : state.matcher.isSeeded pair = false) :
      Act context state [made state.matcher.nextMap] { state with
        matcher := (state.matcher.allocate (.ofPlan law pair.node plan)).2 }
  | unite {left right : MapId} {leftMap rightMap merged : Correspondence} {fills : Bool}
      (foundLeft : state.matcher.get? left = some leftMap)
      (foundRight : state.matcher.get? right = some rightMap)
      (united : state.matcher.union? context.catalog leftMap rightMap = some (merged, fills)) :
      Act context state [made state.matcher.nextMap] { state with
        matcher := (state.matcher.allocateUnion leftMap rightMap merged).2 }
  | satisfy {id : MapId} {map : Correspondence} (found : state.matcher.get? id = some map) :
      Act context state [] (state.markSatisfied context map)
  | branch (id : MapId) (node : LawNodeId) (settled : state.Settles id) :
      Act context state (state.branchEvents context id node) (state.appendBranch context id node).2
  | conclude (id : MapId) (conclusions : List EntityId) : Act context state [] { state with
      matcher := state.matcher.update id fun map => { map with conclusions := conclusions } }

/-- Acts one after the other, with their events. -/
inductive Acts (context : PassContext) : PassState → List PassEvent → PassState → Prop
  | refl (state : PassState) : Acts context state [] state
  | step {state middle later : PassState} {events more : List PassEvent}
      (act : Act context state events middle) (rest : Acts context middle more later) :
      Acts context state (events ++ more) later

variable {context : PassContext}

theorem Act.acts {state later : PassState} {events : List PassEvent}
    (act : Act context state events later) : Acts context state events later :=
  List.append_nil events ▸ .step act (.refl later)

theorem Acts.trans {first second third : PassState} {events more : List PassEvent}
    (earlier : Acts context first events second) (later : Acts context second more third) :
    Acts context first (events ++ more) third := by
  induction earlier with
  | refl => exact later
  | step act _ ih =>
    rw [List.append_assoc]
    exact .step act (ih later)

/-- An act without events comes first. -/
theorem Acts.after {state middle later : PassState} {events : List PassEvent}
    (act : Act context state [] middle) (rest : Acts context middle events later) :
    Acts context state events later :=
  .step act rest

/-- An act without events comes last. -/
theorem Acts.before {state middle later : PassState} {events : List PassEvent}
    (earlier : Acts context state events middle) (act : Act context middle [] later) :
    Acts context state events later :=
  List.append_nil events ▸ earlier.trans act.acts

/-- A loop acts as its turns do; `read` is the state of the pass in that of the loop. -/
theorem acts_ofLoop {State Item : Type} (read : State → PassState) {step : State → Item → State}
    {eventsOf : State → Item → List PassEvent} {items : List Item}
    (turns : ∀ state, ∀ item ∈ items,
      Acts context (read state) (eventsOf state item) (read (step state item))) (state : State) :
    Acts context (read state) (ofLoop step eventsOf items state)
      (read (items.foldl step state)) := by
  induction items generalizing state with
  | nil => exact .refl (read state)
  | cons first rest ih =>
    have head := turns state first List.mem_cons_self
    exact head.trans (ih (fun state item member =>
      turns state item (List.mem_cons_of_mem first member)) _)

/-! ## Conclusions -/

theorem acts_appendAll {id : MapId} (nodes : List LawNodeId) {state : PassState}
    (settled : state.Settles id) :
    Acts context state (ofLoop (fun state node => (state.appendBranch context id node).2)
      (fun state node => state.branchEvents context id node) nodes state)
      (appendAll context id nodes state).2 := by
  induction nodes generalizing state with
  | nil => exact .refl state
  | cons first rest ih =>
    exact .step (.branch id first settled) (ih (settled.appendBranch context first))

theorem acts_append (context : PassContext) (state : PassState) (id : MapId) :
    Acts context state (state.appendEvents context id) (state.append context id).2 := by
  unfold appendEvents append
  cases found : state.matcher.get? id with
  | none => exact .refl state
  | some map =>
    have settled : (state.markSatisfied context map).Settles id := by
      have settles := state.settles_satisfyAt context id
      unfold satisfyAt at settles
      rwa [found] at settles
    exact .after (.satisfy found) ((acts_appendAll _ settled).before (.conclude id _))

/-! ## From correspondences to passes -/

theorem acts_mergeWith {further : PassState → MapId → PassState}
    {furtherEvents : PassState → MapId → List PassEvent}
    (acts : ∀ state id, Acts context state (furtherEvents state id) (further state id))
    (state : PassState) (left right : MapId) :
    Acts context state (mergeWithEvents context furtherEvents state left right)
      (mergeWith context further state left right).2 := by
  unfold mergeWithEvents mergeWith
  cases foundLeft : state.matcher.get? left with
  | none => exact .refl state
  | some leftMap =>
    cases foundRight : state.matcher.get? right with
    | none => exact .refl state
    | some rightMap =>
      dsimp only
      by_cases same : left = right
      · rw [if_pos same, if_pos same]
        exact .refl state
      rw [if_neg same, if_neg same]
      cases united : state.matcher.union? context.catalog leftMap rightMap with
      | none => exact .refl state
      | some union =>
        obtain ⟨merged, fills⟩ := union
        have allocated := Act.unite foundLeft foundRight united
        cases fills with
        | true => exact .step allocated (acts_append context _ _)
        | false => exact .step allocated (acts _ _)

theorem acts_tryMerge {further : PassState → MapId → PassState}
    {furtherEvents : PassState → MapId → List PassEvent}
    (acts : ∀ state id, Acts context state (furtherEvents state id) (further state id))
    (left : MapId) (state : PassState) (right : MapId) :
    Acts context state (tryMergeEvents context furtherEvents left state right)
      (tryMerge context further left state right) := by
  unfold tryMergeEvents tryMerge
  cases paid : state.matcher.spend? with
  | none => exact .refl state
  | some spent => exact .after (.spend paid) (acts_mergeWith acts _ left right)

theorem acts_mergeAll (context : PassContext) (depth : Nat) (state : PassState) (id : MapId) :
    Acts context state (mergeAllEvents context depth state id)
      (mergeAll context depth state id) := by
  induction depth generalizing state id with
  | zero => exact .refl state
  | succ depth ih =>
    unfold mergeAllEvents mergeAll
    cases found : state.matcher.get? id with
    | none => exact .refl state
    | some map =>
      exact acts_ofLoop (fun state => state)
        (fun state right _ => acts_tryMerge ih id state right) state

theorem acts_develop (context : PassContext) (state : PassState) (id : MapId) :
    Acts context state (developEvents context state id) (state.develop context id) := by
  unfold developEvents develop
  cases found : state.matcher.get? id with
  | none => exact .refl state
  | some map =>
    dsimp only
    split
    · exact acts_append context state id
    · exact acts_mergeAll context _ state id

theorem acts_checkSeed {context : PassContext} {place : LawId × LawNodeId}
    (listed : place ∈ seedPlaces context.catalog) (entity : EntityId)
    (progress : List MapId × PassState) :
    Acts context progress.2 (checkSeedEvents context entity progress place)
      (checkSeed context entity progress place).2 := by
  obtain ⟨created, state⟩ := progress
  unfold checkSeedEvents checkSeed
  dsimp only
  cases paid : state.matcher.spend? with
  | none => exact .refl state
  | some spent =>
    dsimp only
    refine .after (.spend paid) ?_
    cases seeded : spent.seed state.relation context.catalog place.1 ⟨entity, place.2⟩ with
    | mk outcome later =>
      cases outcome with
      | none =>
        obtain ⟨-, rfl⟩ := Matcher.seed_eq_none seeded
        exact .refl _
      | some id =>
        have unseeded := Matcher.isSeeded_of_seed_eq_some seeded
        obtain ⟨plan, planned, rfl, rfl⟩ := Matcher.seed_eq_some seeded
        have sown : Act context { state with matcher := spent } [made spent.nextMap] _ :=
          .sow planned listed unseeded
        exact .step sown (acts_develop context _ _)

theorem acts_checkEntity (context : PassContext) (state : PassState) (entity : EntityId) :
    Acts context state
      (ofLoop (checkSeed context entity) (checkSeedEvents context entity)
        (seedPlaces context.catalog) ([], state)) (state.checkEntity context entity).2 :=
  acts_ofLoop Prod.snd (fun progress _ listed => acts_checkSeed listed entity progress) ([], state)

theorem acts_visit (context : PassContext) (tag : String) (state : PassState)
    (entity : EntityId) :
    Acts context state (visitEvents context tag state entity) (state.visit context tag entity) :=
  .after (.note tag entity) (acts_checkEntity context _ entity)

theorem acts_rounds (context : PassContext) (tag : String) (dirty : Std.ExtTreeSet EntityId)
    (limit : Nat) (seen : Std.ExtTreeSet EntityId) (state : PassState) :
    Acts context state (roundsEvents context tag dirty limit seen state)
      (rounds context tag dirty limit seen state) := by
  induction limit generalizing seen state with
  | zero => exact .refl state
  | succ limit ih =>
    unfold roundsEvents rounds
    dsimp only
    split
    · exact .refl state
    · exact (acts_ofLoop (fun state => state)
        (fun state entity _ => acts_visit context tag state entity) state).trans (ih _ _)

end PassState

/-- A pass does what its events tell. -/
theorem Matcher.acts_passed (matcher : Matcher) (relation : Relation) (catalog : Catalog)
    (options : PassOptions) (dirty : Std.ExtTreeSet EntityId) :
    PassState.Acts ⟨catalog, options.tentative⟩ ⟨matcher.prepare options, relation, .empty⟩
      (matcher.evaluateEvents relation catalog options dirty)
      (matcher.passed relation catalog options dirty) :=
  PassState.acts_rounds ⟨catalog, options.tentative⟩ options.tag dirty _ ∅ _

end ConceptLaws
