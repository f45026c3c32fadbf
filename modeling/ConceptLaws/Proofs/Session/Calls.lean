import ConceptLaws.Proofs.Correspondence.Flags
import ConceptLaws.Proofs.Propagation.Protection
import ConceptLaws.Proofs.Relation.Forest
import ConceptLaws.Proofs.Session.Suggestions

/-! Operations of a session as calls in place.
An operation changes one part of the session after the other. If it fails on the way, what it has
done until then stays done, so that it leaves the session alone is something to prove. It does: an
operation looks at everything it may stumble over before it changes anything, but for two cases in
which the change comes to nothing. An entity that is not there is taken out, and a key that is
locked is added to a tree that has it. -/

namespace ConceptLaws

section

variable {σ τ ε φ α : Type}

/-- The result of a call that leaves its state alone when it fails. -/
def keeping (state : σ) : Except ε (α × σ) → EStateM.Result ε σ α
  | .ok (answer, later) => .ok answer later
  | .error fault => .error fault state

/-- A call on a part of a state, made on the whole of it. -/
def onPart (part : σ → τ) (replace : σ → τ → σ) (wrap : ε → φ) (call : EStateM ε τ α) :
    EStateM φ σ α := fun state =>
  match call.run (part state) with
  | .ok answer later => .ok answer (replace state later)
  | .error fault later => .error (wrap fault) (replace state later)

/-- A call that leaves its part alone when it fails leaves the whole alone. -/
theorem run_onPart {part : σ → τ} {replace : σ → τ → σ} {wrap : ε → φ} {call : EStateM ε τ α}
    {state : σ} {result : Except ε (α × τ)} (same : replace state (part state) = state)
    (kept : call.run (part state) = keeping (part state) result) :
    (onPart part replace wrap call).run state = keeping state
      ((result.map fun (answer, later) => (answer, replace state later)).mapError wrap) := by
  change (match call.run (part state) with
    | .ok answer later => EStateM.Result.ok answer (replace state later)
    | .error fault later => .error (wrap fault) (replace state later)) = _
  cases result with
  | ok pair =>
    rw [kept]
    rfl
  | error fault =>
    rw [kept]
    exact congrArg (EStateM.Result.error (wrap fault)) same

theorem run_forM_modify {β : Type} (change : β → σ → σ) (list : List β) (state : σ) :
    EStateM.run (list.forM fun item => modify (change item) : EStateM ε σ Unit) state =
      .ok () (list.foldl (fun state item => change item state) state) := by
  induction list generalizing state with
  | nil => rfl
  | cons first rest ih => exact ih (change first state)

end

/-! ## Fields -/

namespace Propagation

theorem Tree.ensure_of_contains {tree : Tree} {path : Path} (present : tree.contains path = true) :
    tree.ensure path = tree := by
  have first : path.ancestry.head? = some path := by simp [Path.ancestry, List.range_succ]
  obtain ⟨rest, ancestry⟩ := List.head?_eq_some_iff.1 first
  unfold ensure
  rw [ancestry, List.takeWhile_cons, if_neg (by simp [present])]
  rfl

namespace Network

/-- A key that is there is not added again. -/
theorem ensure_of_cell? {network : Network} {key : Address} {cell : Cell}
    (found : network.cell? key = some cell) : network.ensure key = network := by
  refine updateTree_self fun tree live => Tree.ensure_of_contains ?_
  have held : tree.cell? key.path = some cell := by
    unfold cell? at found
    rw [live] at found
    exact found
  rw [Tree.contains_eq_isSome, held]
  rfl

/-- The key is added before it is known whether it is locked. -/
def editFieldInPlace (entity : EntityId) (key : Address) (value : Datum) :
    EStateM FieldFault Network (Option Datum) := do
  if ((← get).dataRole? key.tree).map DataRole.entity != some entity then
    throw (.unknownEntity entity)
  modify (·.ensure key)
  if (((← get).cell? key).map Cell.locked).getD false then throw (.locked entity key.path)
  let before := (← get).value? key
  modify (·.updateCell key fun cell => { cell.replace (some value) with known := true })
  modify (·.noteChange key)
  return before

/-- Only a key that was there before is locked. -/
theorem ensure_of_locked {network : Network} {key : Address}
    (locked : (((network.ensure key).cell? key).map Cell.locked).getD false = true) :
    network.ensure key = network := by
  rcases cell?_ensure_cases network key key with same | ⟨-, active, added⟩
  · rw [same] at locked
    cases found : network.cell? key with
    | none => simp [found] at locked
    | some cell => exact ensure_of_cell? found
  · rw [added] at locked
    cases locked

theorem run_editFieldInPlace (network : Network) (entity : EntityId) (key : Address)
    (value : Datum) : (editFieldInPlace entity key value).run network =
      keeping network (network.editField entity key value) := by
  unfold editFieldInPlace editField
  simp only [EStateM.run_bind, EStateM.run_get]
  split
  · rfl
  simp only [EStateM.run_bind, EStateM.run_modify, EStateM.run_get]
  split
  · rename_i locked
    exact congrArg (EStateM.Result.error _) (ensure_of_locked locked)
  · rfl

end Network

end Propagation

/-! ## Suggestions -/

namespace Relation

theorem get?_foldl_update {change : Entity → Entity}
    (settled : ∀ entity, change (change entity) = change entity) (ids : List EntityId)
    (relation : Relation) (query : EntityId) :
    (ids.foldl (fun relation id => relation.update id change) relation).get? query =
      if query ∈ ids then (relation.get? query).map change else relation.get? query := by
  induction ids generalizing relation with
  | nil => simp
  | cons first rest ih =>
    rw [List.foldl_cons, ih, get?_update]
    by_cases here : query = first
    · subst here
      simp only [if_true, List.mem_cons_self, Option.map_map]
      split
      · exact congrArg (Option.map · _) (funext settled)
      · rfl
    · simp only [List.mem_cons, here, false_or, if_false]

theorem nextId_foldl_update (change : Entity → Entity) (ids : List EntityId)
    (relation : Relation) :
    (ids.foldl (fun relation id => relation.update id change) relation).nextId =
      relation.nextId := by
  induction ids generalizing relation with
  | nil => rfl
  | cons first rest ih => exact ih (relation.update first change)

/-- Changing the entities of a kind one by one changes them all. -/
theorem Named.foldl_update {relation : Relation} (named : relation.Named) {change : Entity → Entity}
    (settled : ∀ entity, change (change entity) = change entity) (kind : Entity → Bool) :
    ((relation.toList.filter kind).map Entity.id).foldl
        (fun relation id => relation.update id change) relation =
      { relation with
        entities := relation.entities.map fun _ entity =>
          if kind entity then change entity else entity } := by
  refine ext_get? (fun query => ?_) (nextId_foldl_update change _ relation)
  rw [get?_foldl_update settled]
  change _ = (relation.entities.map _)[query]?
  rw [Std.ExtTreeMap.getElem?_map]
  change _ = (relation.get? query).map _
  have listed : query ∈ (relation.toList.filter kind).map Entity.id ↔
      ∃ entity, relation.get? query = some entity ∧ kind entity = true := by
    simp only [List.mem_map, List.mem_filter]
    constructor
    · rintro ⟨entity, ⟨member, fits⟩, rfl⟩
      obtain ⟨id, found⟩ := mem_values.1 member
      exact ⟨entity, named id entity found ▸ found, fits⟩
    · rintro ⟨entity, found, fits⟩
      exact ⟨entity, ⟨mem_values.2 ⟨query, found⟩, fits⟩, named query entity found⟩
  cases found : relation.get? query with
  | none => simp
  | some entity =>
    simp only [listed, found, Option.some.injEq, exists_eq_left', Option.map_some]
    split
    · rfl
    · rfl

end Relation

namespace Matcher

theorem resettle_resettle (matcher : Matcher) (entity : Entity) :
    matcher.resettle (matcher.resettle entity) = matcher.resettle entity := rfl

def setTentativeInPlace (id : MapId) (tentative : Bool) :
    EStateM MatcherFault (Matcher × Relation) Unit := do
  match (← get).1.get? id with
  | none => throw (.unknownMap id)
  | some map =>
    if !map.satisfied then throw (.notSatisfied id)
    modify fun (matcher, relation) =>
      (matcher.update id fun map => { map with tentative := tentative }, relation)
    let claimed := ((← get).2.toList.filter (claims id)).map Entity.id
    claimed.forM fun entity => modify fun (matcher, relation) =>
      (matcher, relation.update entity matcher.resettle)
    modify fun (matcher, relation) => (matcher, relation.recomputeDeep)

theorem foldl_resettle (matcher : Matcher) (ids : List EntityId) (relation : Relation) :
    ids.foldl (fun (state : Matcher × Relation) id =>
        (state.1, state.2.update id state.1.resettle)) (matcher, relation) =
      (matcher, ids.foldl (fun relation id => relation.update id matcher.resettle) relation) := by
  induction ids generalizing relation with
  | nil => rfl
  | cons first rest ih => exact ih (relation.update first matcher.resettle)

/-- What a call that succeeds makes of the relation. -/
theorem run_setTentativeInPlace (matcher : Matcher) (relation : Relation) (id : MapId)
    (tentative : Bool) : (setTentativeInPlace id tentative).run (matcher, relation) =
      keeping (matcher, relation)
        ((matcher.setTentative relation id tentative).map fun (later, _) => ((), later,
          (((relation.toList.filter (claims id)).map Entity.id).foldl
            (fun relation id => relation.update id later.resettle) relation).recomputeDeep)) := by
  unfold setTentativeInPlace setTentative
  simp only [EStateM.run_bind, EStateM.run_get]
  cases matcher.get? id with
  | none => rfl
  | some map =>
    dsimp only
    split
    · rfl
    simp only [EStateM.run_bind, EStateM.run_modify, EStateM.run_get, run_forM_modify,
      foldl_resettle]
    rfl

theorem run_setTentativeInPlace_of_named {relation : Relation} (named : relation.Named)
    (matcher : Matcher) (id : MapId) (tentative : Bool) :
    (setTentativeInPlace id tentative).run (matcher, relation) =
      keeping (matcher, relation)
        ((matcher.setTentative relation id tentative).map fun later => ((), later)) := by
  rw [run_setTentativeInPlace]
  unfold setTentative
  cases matcher.get? id with
  | none => rfl
  | some map =>
    dsimp only
    split
    · rfl
    dsimp only [Except.map]
    rw [named.foldl_update (resettle_resettle _)]
    rfl

end Matcher

/-! ## Operations -/

namespace Session

/-- A call on a session; what it has done before it fails stays done. -/
abbrev InPlace := EStateM SessionFault Session

def onRelation {α : Type} (call : Relation.Call α) : InPlace α :=
  onPart relation (fun session relation => { session with relation }) .relation call

def onNetwork {α : Type} (call : EStateM Propagation.FieldFault Propagation.Network α) :
    InPlace α :=
  onPart network (fun session network => { session with network }) .field call

def onMatching {α : Type} (call : EStateM MatcherFault (Matcher × Relation) α) : InPlace α :=
  onPart (fun session => (session.matcher, session.relation))
    (fun session (matcher, relation) => { session with matcher, relation }) .matching call

def recomputeDeep (session : Session) : Session :=
  { session with relation := session.relation.recomputeDeep }

def addInPlace (record : EntityRecord) : InPlace EntityId := do
  let id ← onRelation (Relation.insertInPlace (.ofRecord record) (← get).catalog)
  modify recomputeDeep
  modify (·.flag [id])
  return id

def removeInPlace (id : EntityId) : InPlace Entity := do
  let dependents := (← get).dependents id
  let removed ← onRelation (Relation.removeInPlace id)
  modify recomputeDeep
  modify (·.forget id)
  dependents.forM fun dependent => modify (·.touch dependent)
  modify fun session => { session with dirty := session.dirty.erase id }
  modify (·.dropTrees id)
  return removed

def setValueInPlace (id : EntityId) (value : Payload) : InPlace Unit := do
  onRelation (Relation.setValueInPlace id value)
  modify (·.touch id)

def setConceptInPlace (id : EntityId) (concept : ConceptId) : InPlace Unit := do
  onRelation (Relation.setConceptInPlace id concept (← get).catalog)
  modify (·.touch id)

def setParentsInPlace (id : EntityId) (head reference : Option EntityId) : InPlace Unit := do
  onRelation (Relation.setParentsInPlace id head reference)
  modify recomputeDeep
  modify (·.touch id)

def setFieldInPlace (id : EntityId) (path : Path) (value : Datum) : InPlace (Option Datum) := do
  match (← get).dataKey? id path with
  | none => throw (.field (.unknownEntity id))
  | some key =>
    let before ← onNetwork (Propagation.Network.editFieldInPlace id key value)
    modify flagChanged
    return before

def setCatalogInPlace (catalog : Catalog) : InPlace Unit := do
  match (← get).relation.toList.find? fun entity => (catalog.concept? entity.concept).isNone with
  | some entity => throw (.relation (.unknownConcept entity.id entity.concept))
  | none =>
    let before := (← get).catalog.fingerprint
    modify fun session => { session with catalog }
    if catalog.fingerprint ≠ before then
      modify fun session => { session with matcher := session.matcher.reset }
      modify fun session => { session with inferred := ∅ }
      modify fun session => session.flag session.relation.ids
      modify clearTrees

def acceptInPlace (map : MapId) : InPlace Unit := do
  onMatching (Matcher.setTentativeInPlace map false)
  modify fun session => session.flag (session.claimed map)
  modify symbolize

/-! ## What the operations come to -/

variable (session : Session)

theorem run_onRelation {α : Type} {call : Relation.Call α}
    {result : Except RelationFault (α × Relation)}
    (settled : call.run session.relation = session.relation.settled result) :
    (onRelation call).run session = keeping session ((result.map fun (answer, relation) =>
      (answer, { session with relation })).mapError .relation) := by
  refine run_onPart rfl (settled.trans ?_)
  cases result with
  | ok pair => rfl
  | error fault => rfl

theorem run_addInPlace (record : EntityRecord) : (addInPlace record).run session =
    keeping session ((session.add record).map fun later => (record.id, later)) := by
  unfold addInPlace Session.add
  rw [EStateM.run_bind, EStateM.run_get]
  dsimp only
  rw [EStateM.run_bind, run_onRelation session (Relation.run_insertInPlace _ _ _)]
  cases session.relation.insert (Entity.ofRecord record) session.catalog with
  | error fault => rfl
  | ok relation => rfl

theorem run_removeInPlace (id : EntityId) :
    (removeInPlace id).run session = keeping session (session.remove id) := by
  unfold removeInPlace Session.remove
  rw [EStateM.run_bind, EStateM.run_get]
  dsimp only
  rw [EStateM.run_bind, run_onRelation session (Relation.run_removeInPlace _ _)]
  cases session.relation.remove id with
  | error fault => rfl
  | ok pair =>
    dsimp only [Except.map, Except.mapError, keeping]
    simp only [EStateM.run_bind, EStateM.run_modify, run_forM_modify]
    rfl

theorem run_setValueInPlace (id : EntityId) (value : Payload) :
    (setValueInPlace id value).run session =
      keeping session ((session.setValue id value).map fun later => ((), later)) := by
  unfold setValueInPlace Session.setValue
  rw [EStateM.run_bind, run_onRelation session (Relation.run_setValueInPlace _ _ _)]
  cases session.relation.setValue id value with
  | error fault => rfl
  | ok relation => rfl

theorem run_setConceptInPlace (id : EntityId) (concept : ConceptId) :
    (setConceptInPlace id concept).run session =
      keeping session ((session.setConcept id concept).map fun later => ((), later)) := by
  unfold setConceptInPlace Session.setConcept
  rw [EStateM.run_bind, EStateM.run_get]
  dsimp only
  rw [EStateM.run_bind, run_onRelation session (Relation.run_setConceptInPlace _ _ _ _)]
  cases session.relation.setConcept id concept session.catalog with
  | error fault => rfl
  | ok relation => rfl

theorem run_setParentsInPlace (id : EntityId) (head reference : Option EntityId) :
    (setParentsInPlace id head reference).run session =
      keeping session ((session.setParents id head reference).map fun later => ((), later)) := by
  unfold setParentsInPlace Session.setParents
  rw [EStateM.run_bind, run_onRelation session (Relation.run_setParentsInPlace _ _ _ _)]
  cases session.relation.setParents id head reference with
  | error fault => rfl
  | ok relation => rfl

theorem run_setFieldInPlace (id : EntityId) (path : Path) (value : Datum) :
    (setFieldInPlace id path value).run session =
      keeping session (session.setField id path value) := by
  unfold setFieldInPlace Session.setField
  rw [EStateM.run_bind, EStateM.run_get]
  dsimp only
  cases session.dataKey? id path with
  | none => rfl
  | some key =>
    dsimp only
    rw [EStateM.run_bind, onNetwork,
      run_onPart rfl (session.network.run_editFieldInPlace id key value)]
    cases session.network.editField id key value with
    | error fault => rfl
    | ok pair => rfl

theorem run_setCatalogInPlace (catalog : Catalog) : (setCatalogInPlace catalog).run session =
    keeping session ((session.setCatalog catalog).map fun later => ((), later)) := by
  unfold setCatalogInPlace Session.setCatalog
  rw [EStateM.run_bind, EStateM.run_get]
  dsimp only
  cases session.relation.toList.find? fun entity => (catalog.concept? entity.concept).isNone with
  | some entity => rfl
  | none =>
    dsimp only
    rw [EStateM.run_bind, EStateM.run_get]
    dsimp only
    rw [EStateM.run_bind, EStateM.run_modify]
    dsimp only
    by_cases same : catalog.fingerprint = session.catalog.fingerprint
    · rw [if_neg (not_not.2 same), if_pos same]
      rfl
    · rw [if_pos same, if_neg same]
      rfl

theorem run_onMatching {α : Type} {call : EStateM MatcherFault (Matcher × Relation) α}
    {result : Except MatcherFault (α × Matcher × Relation)}
    (kept : call.run (session.matcher, session.relation) =
      keeping (session.matcher, session.relation) result) :
    (onMatching call).run session = keeping session ((result.map fun (answer, matcher, relation) =>
      (answer, { session with matcher, relation })).mapError .matching) :=
  run_onPart rfl kept

/-- Where the relation is keyed by identifier, accepting in place is accepting. -/
theorem run_acceptInPlace {session : Session} (named : session.relation.Named) (map : MapId) :
    (acceptInPlace map).run session =
      keeping session ((session.accept map).map fun later => ((), later)) := by
  unfold acceptInPlace Session.accept
  rw [EStateM.run_bind, session.run_onMatching
    (Matcher.run_setTentativeInPlace_of_named named session.matcher map false)]
  cases session.matcher.setTentative session.relation map false with
  | error fault => rfl
  | ok pair => rfl

/-- In any session accepting fails in place as it fails. -/
theorem run_acceptInPlace_cases (map : MapId) :
    (∃ later final, (acceptInPlace map).run session = .ok () later ∧
      session.accept map = .ok final) ∨
    ∃ fault, (acceptInPlace map).run session = .error fault session ∧
      session.accept map = .error fault := by
  unfold acceptInPlace Session.accept
  rw [EStateM.run_bind, session.run_onMatching
    (session.matcher.run_setTentativeInPlace session.relation map false)]
  cases session.matcher.setTentative session.relation map false with
  | error fault => exact .inr ⟨.matching fault, rfl, rfl⟩
  | ok pair => exact .inl ⟨_, _, rfl, rfl⟩

namespace Operation

def call : Operation → InPlace Unit
  | add record => discard (addInPlace record)
  | remove id => discard (removeInPlace id)
  | setValue id value => setValueInPlace id value
  | setConcept id concept => setConceptInPlace id concept
  | setParents id head reference => setParentsInPlace id head reference
  | setField id path value => discard (setFieldInPlace id path value)
  | setCatalog catalog => setCatalogInPlace catalog
  | evaluate options => modify fun session => (session.evaluate options).2
  | suggest => modify Session.suggest
  | accept map => acceptInPlace map
  | resolve name => modify fun session => (session.resolve name).2

/-- What an operation makes of a session, if it succeeds. -/
def result? (session : Session) : Operation → Except SessionFault Session
  | add record => session.add record
  | remove id => (session.remove id).map Prod.snd
  | setValue id value => session.setValue id value
  | setConcept id concept => session.setConcept id concept
  | setParents id head reference => session.setParents id head reference
  | setField id path value => (session.setField id path value).map Prod.snd
  | setCatalog catalog => session.setCatalog catalog
  | evaluate options => .ok (session.evaluate options).2
  | suggest => .ok session.suggest
  | accept map => session.accept map
  | resolve name => .ok (session.resolve name).2

end Operation

theorem perform_eq (operation : Operation) :
    session.perform operation = session.orKeep (operation.result? session) := by
  cases operation with
  | _ => rfl

theorem run_discard {α : Type} {call : InPlace α} {result : Except SessionFault (α × Session)}
    (kept : call.run session = keeping session result) :
    (discard call).run session =
      keeping session ((result.map Prod.snd).map fun later => ((), later)) := by
  have ran : call session = keeping session result := kept
  change EStateM.map _ call session = _
  unfold EStateM.map
  rw [ran]
  cases result with
  | ok pair => rfl
  | error fault => rfl

/-- An operation in place comes to what it makes of the session. -/
theorem run_call {session : Session} {operation : Operation}
    (named : (∃ map, operation = .accept map) → session.relation.Named) :
    operation.call.run session =
      keeping session ((operation.result? session).map fun later => ((), later)) := by
  cases operation with
  | add record =>
    refine (session.run_discard (session.run_addInPlace record)).trans ?_
    dsimp only [Operation.result?]
    cases session.add record with
    | error fault => rfl
    | ok later => rfl
  | remove id => exact session.run_discard (session.run_removeInPlace id)
  | setValue id value => exact session.run_setValueInPlace id value
  | setConcept id concept => exact session.run_setConceptInPlace id concept
  | setParents id head reference => exact session.run_setParentsInPlace id head reference
  | setField id path value => exact session.run_discard (session.run_setFieldInPlace id path value)
  | setCatalog catalog => exact session.run_setCatalogInPlace catalog
  | evaluate options => rfl
  | suggest => rfl
  | accept map => exact run_acceptInPlace (named ⟨map, rfl⟩) map
  | resolve name => rfl

/-- Performing an operation is running it in place, whether it succeeds or fails. -/
theorem perform_eq_run {session : Session} (named : session.relation.Named)
    (operation : Operation) :
    session.perform operation = match operation.call.run session with
      | .ok _ later => later
      | .error _ later => later := by
  rw [perform_eq, run_call fun _ => named]
  cases operation.result? session with
  | error fault => rfl
  | ok later => rfl

/-- In any session an operation fails in place exactly if it fails. -/
theorem run_call_cases (operation : Operation) :
    (∃ later final, operation.call.run session = .ok () later ∧
      operation.result? session = .ok final) ∨
    ∃ fault, operation.call.run session = .error fault session ∧
      operation.result? session = .error fault := by
  by_cases accepts : ∃ map, operation = .accept map
  · obtain ⟨map, rfl⟩ := accepts
    exact session.run_acceptInPlace_cases map
  · rw [run_call fun accepting => absurd accepting accepts]
    cases operation.result? session with
    | error fault => exact .inr ⟨fault, rfl, rfl⟩
    | ok later => exact .inl ⟨later, later, rfl, rfl⟩

/-- An operation that fails leaves the session as it was, in all its parts. -/
theorem eq_of_failed {session after : Session} {operation : Operation} {fault : SessionFault}
    (failed : operation.call.run session = .error fault after) :
    operation.result? session = .error fault ∧ after = session := by
  rcases session.run_call_cases operation with ⟨later, -, done, -⟩ | ⟨other, refused, same⟩
  · simp [done] at failed
  · rw [refused] at failed
    obtain ⟨rfl, rfl⟩ := EStateM.Result.error.inj failed
    exact ⟨same, rfl⟩

open Propagation in
/-- A point with a data tree in which a command has derived a length. -/
def measured : Session :=
  let (data, network) := (Network.empty 10).create (.data ⟨⟨1⟩, none⟩)
  let (variableTable, network) := network.create (.variableTable ⟨some ⟨1⟩, ∅⟩)
  { ofRelation Relation.pointCatalog .standard Relation.points with
    network := (network.write ⟨data, ["length"]⟩ (.list [])).2
    trees := (∅ : Std.ExtTreeMap EntityId EntityTrees).insert ⟨1⟩ ⟨data, variableTable⟩ }

/-- The length is locked. Editing it leaves the session with the key ensured, which is the session
as it was. -/
theorem eq_of_failed_measured :
    let ensured : Session :=
      { measured with network := measured.network.ensure ⟨⟨0, 0⟩, ["length"]⟩ }
    (Operation.setField ⟨1⟩ ["length"] (.text "two")).call.run measured =
        .error (.field (.locked ⟨1⟩ ["length"])) ensured ∧ ensured = measured := by
  have failed : (Operation.setField ⟨1⟩ ["length"] (.text "two")).call.run measured =
      .error (.field (.locked ⟨1⟩ ["length"]))
        { measured with network := measured.network.ensure ⟨⟨0, 0⟩, ["length"]⟩ } := rfl
  exact ⟨failed, (eq_of_failed failed).2⟩

end Session

end ConceptLaws
