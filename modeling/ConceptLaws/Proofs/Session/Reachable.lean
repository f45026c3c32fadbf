import ConceptLaws.Proofs.Catalog.Valid
import ConceptLaws.Proofs.Relation.Basic
import ConceptLaws.Session.Operations

/-! Sessions as they are used.
A session starts from records and goes from one operation to the next. An operation that fails
leaves no session, so it is no step. -/

namespace ConceptLaws.Session

/-- A single operation that succeeded. -/
inductive Step (session : Session) : Session → Prop
  | add {record : EntityRecord} {later : Session} (done : session.add record = .ok later) :
      Step session later
  | remove {id : EntityId} {removed : Entity} {later : Session}
      (done : session.remove id = .ok (removed, later)) : Step session later
  | setValue {id : EntityId} {value : Payload} {later : Session}
      (done : session.setValue id value = .ok later) : Step session later
  | setConcept {id : EntityId} {concept : ConceptId} {later : Session}
      (done : session.setConcept id concept = .ok later) : Step session later
  | setParents {id : EntityId} {head reference : Option EntityId} {later : Session}
      (done : session.setParents id head reference = .ok later) : Step session later
  | setField {id : EntityId} {path : Path} {value : Datum} {before : Option Datum}
      {later : Session} (done : session.setField id path value = .ok (before, later)) :
      Step session later
  | setCatalog {catalog : Catalog} {later : Session} (valid : catalog.Valid)
      (done : session.setCatalog catalog = .ok later) : Step session later
  | evaluate (options : PassOptions) : Step session (session.evaluate options).2
  | suggest : Step session session.suggest
  | accept {map : MapId} {later : Session} (done : session.accept map = .ok later) :
      Step session later
  | resolve (name : String) : Step session (session.resolve name).2

/-- Sessions that operations lead to. `catalogs` are the catalogs that the session had after each of
them, the last one first. -/
inductive Reachable : List Catalog → Session → Prop
  | ofRecords {catalog : Catalog} {settings : Settings} {records : List EntityRecord}
      {session : Session} (valid : catalog.Valid)
      (made : Session.ofRecords catalog settings records = .ok session) :
      Reachable [catalog] session
  | step {catalogs : List Catalog} {session later : Session} (reached : Reachable catalogs session)
      (step : Step session later) : Reachable (later.catalog :: catalogs) later

/-! ## What an operation that succeeded has made -/

variable {session later : Session}

theorem ofRecords_eq_ok {catalog : Catalog} {settings : Settings} {records : List EntityRecord}
    (made : Session.ofRecords catalog settings records = .ok session) :
    ∃ relation, Relation.ofRecords records catalog = .ok relation ∧
      session = ofRelation catalog settings relation := by
  unfold Session.ofRecords at made
  cases built : Relation.ofRecords records catalog with
  | error fault =>
    rw [built] at made
    cases made
  | ok relation =>
    rw [built] at made
    exact ⟨relation, rfl, (Except.ok.inj made).symm⟩

theorem add_eq_ok {record : EntityRecord} (done : session.add record = .ok later) :
    ∃ relation, session.relation.insert (Entity.ofRecord record) session.catalog = .ok relation ∧
      later = { session with relation := relation.recomputeDeep }.flag [record.id] := by
  unfold Session.add at done
  split at done
  · simp at done
  · rename_i relation inserted
    exact ⟨relation, inserted, (Except.ok.inj done).symm⟩

theorem remove_eq_ok {id : EntityId} {removed : Entity}
    (done : session.remove id = .ok (removed, later)) :
    ∃ relation touched, session.relation.remove id = .ok (removed, relation) ∧
      touched = (session.dependents id).foldl touch
        ({ session with relation := relation.recomputeDeep }.forget id) ∧
      later = { touched with dirty := touched.dirty.erase id }.dropTrees id := by
  unfold Session.remove at done
  split at done
  · simp at done
  · rename_i relation shrunk
    obtain ⟨rfl, rfl⟩ := Prod.mk.inj (Except.ok.inj done)
    exact ⟨relation, _, shrunk, rfl, rfl⟩

/-- Touching entities forgets them one after the other. -/
theorem foldl_touch (ids : List EntityId) (session : Session) :
    ∃ inferred dirty, ids.foldl touch session = { session with
      matcher := ids.foldl Matcher.forgetEntity session.matcher
      inferred := inferred
      dirty := dirty } := by
  induction ids generalizing session with
  | nil => exact ⟨session.inferred, session.dirty, rfl⟩
  | cons first rest ih => exact ih (session.touch first)

/-- The entities that linked to a removed one are forgotten after it, and its trees are dropped. -/
theorem remove_eq_dropTrees {id : EntityId} {removed : Entity}
    (done : session.remove id = .ok (removed, later)) :
    ∃ relation inferred dirty, session.relation.remove id = .ok (removed, relation) ∧
      later = { session with
        relation := relation.recomputeDeep
        matcher := (session.dependents id).foldl Matcher.forgetEntity
          (session.matcher.forgetEntity id)
        inferred := inferred
        dirty := dirty }.dropTrees id := by
  obtain ⟨relation, touched, shrunk, forgotten, rfl⟩ := remove_eq_ok done
  obtain ⟨inferred, dirty, same⟩ := foldl_touch (session.dependents id)
    ({ session with relation := relation.recomputeDeep }.forget id)
  obtain rfl := forgotten.trans same
  exact ⟨relation, inferred, _, shrunk, rfl⟩

theorem setValue_eq_ok {id : EntityId} {value : Payload}
    (done : session.setValue id value = .ok later) :
    ∃ relation, session.relation.setValue id value = .ok relation ∧
      later = { session with relation }.touch id := by
  unfold Session.setValue at done
  split at done
  · simp at done
  · rename_i relation edited
    exact ⟨relation, edited, (Except.ok.inj done).symm⟩

theorem setConcept_eq_ok {id : EntityId} {concept : ConceptId}
    (done : session.setConcept id concept = .ok later) :
    ∃ relation, session.relation.setConcept id concept session.catalog = .ok relation ∧
      later = { session with relation }.touch id := by
  unfold Session.setConcept at done
  split at done
  · simp at done
  · rename_i relation edited
    exact ⟨relation, edited, (Except.ok.inj done).symm⟩

theorem setParents_eq_ok {id : EntityId} {head reference : Option EntityId}
    (done : session.setParents id head reference = .ok later) :
    ∃ relation, session.relation.setParents id head reference = .ok relation ∧
      later = { session with relation := relation.recomputeDeep }.touch id := by
  unfold Session.setParents at done
  split at done
  · simp at done
  · rename_i relation edited
    exact ⟨relation, edited, (Except.ok.inj done).symm⟩

theorem setField_eq_ok {id : EntityId} {path : Path} {value : Datum} {before : Option Datum}
    (done : session.setField id path value = .ok (before, later)) :
    ∃ key network, session.dataKey? id path = some key ∧
      session.network.editField id key value = .ok (before, network) ∧
      later = { session with network }.flagChanged := by
  unfold Session.setField at done
  split at done
  · simp at done
  rename_i key named
  split at done
  · simp at done
  · rename_i network edited
    obtain ⟨rfl, rfl⟩ := Prod.mk.inj (Except.ok.inj done)
    exact ⟨key, network, named, edited, rfl⟩

/-- A catalog with another fingerprint clears what was made with the one before. -/
theorem setCatalog_eq_ok {catalog : Catalog} (done : session.setCatalog catalog = .ok later) :
    (catalog.fingerprint = session.catalog.fingerprint ∧ later = { session with catalog }) ∨
      (catalog.fingerprint ≠ session.catalog.fingerprint ∧
        later = ({ session with
          catalog := catalog
          matcher := session.matcher.reset
          inferred := ∅ }.clearTrees).flag session.relation.ids) := by
  unfold Session.setCatalog at done
  split at done
  · simp at done
  split at done
  · rename_i same
    exact .inl ⟨same, (Except.ok.inj done).symm⟩
  · rename_i different
    exact .inr ⟨different, (Except.ok.inj done).symm⟩

theorem accept_eq_ok {map : MapId} (done : session.accept map = .ok later) :
    ∃ matcher relation,
      session.matcher.setTentative session.relation map false = .ok (matcher, relation) ∧
      later = ({ session with matcher, relation }.flag
        ({ session with matcher, relation }.claimed map)).symbolize := by
  unfold Session.accept at done
  split at done
  · simp at done
  · rename_i matcher relation accepted
    exact ⟨matcher, relation, accepted, (Except.ok.inj done).symm⟩

theorem foldl_infer (formulas : List InferredFormula) (session : Session) :
    ∃ inferred, formulas.foldl infer session = { session with inferred } := by
  induction formulas generalizing session with
  | nil => exact ⟨session.inferred, rfl⟩
  | cons first rest ih =>
    obtain ⟨inferred, rested⟩ := ih (session.infer first)
    refine ⟨inferred, rested.trans ?_⟩
    unfold infer
    split
    · rfl
    · rfl

theorem evaluate_eq (session : Session) (options : PassOptions) :
    ∃ pass inferred, pass = session.matcher.evaluate session.relation session.catalog options
        session.flagChanged.dirty ∧
      (session.evaluate options).2 = { session.flagChanged with
        matcher := pass.matcher
        relation := pass.relation
        inferred := inferred
        dirty := ∅ } := by
  obtain ⟨inferred, passed⟩ := foldl_infer (session.matcher.evaluate session.relation session.catalog
    options session.flagChanged.dirty).outcome.inferred _
  exact ⟨_, inferred, rfl, passed⟩

/-! ## What resolving leaves as it is -/

/-- What a session is about: all but its trees and the flagged entities. -/
structure Rests (session later : Session) : Prop where
  catalog : later.catalog = session.catalog
  settings : later.settings = session.settings
  relation : later.relation = session.relation
  matcher : later.matcher = session.matcher
  inferred : later.inferred = session.inferred

theorem rests_refl (session : Session) : session.Rests session := ⟨rfl, rfl, rfl, rfl, rfl⟩

theorem Rests.trans {first second third : Session} (earlier : first.Rests second)
    (later : second.Rests third) : first.Rests third where
  catalog := later.catalog.trans earlier.catalog
  settings := later.settings.trans earlier.settings
  relation := later.relation.trans earlier.relation
  matcher := later.matcher.trans earlier.matcher
  inferred := later.inferred.trans earlier.inferred

theorem rests_flag (session : Session) (entities : List EntityId) :
    session.Rests (session.flag entities) :=
  ⟨rfl, rfl, rfl, rfl, rfl⟩

theorem rests_seedEntity (session : Session) (id : EntityId) :
    session.Rests (session.seedEntity id) := by
  unfold seedEntity
  split
  · exact session.rests_refl
  split
  · exact session.rests_refl
  · exact ⟨rfl, rfl, rfl, rfl, rfl⟩

theorem rests_foldl_seedEntity (order : List EntityId) (session : Session) :
    session.Rests (order.foldl seedEntity session) := by
  induction order generalizing session with
  | nil => exact session.rests_refl
  | cons first rest ih => exact (session.rests_seedEntity first).trans (ih _)

theorem rests_resolve (session : Session) (name : String) :
    session.Rests (session.resolve name).2 := by
  have cleared : session.Rests session.clearTrees := ⟨rfl, rfl, rfl, rfl, rfl⟩
  have seeded := cleared.trans (rests_foldl_seedEntity session.relation.topological _)
  exact seeded.trans ⟨rfl, rfl, rfl, rfl, rfl⟩

theorem rests_setField {id : EntityId} {path : Path} {value : Datum} {before : Option Datum}
    (done : session.setField id path value = .ok (before, later)) : session.Rests later := by
  obtain ⟨key, network, -, -, rfl⟩ := setField_eq_ok done
  exact ⟨rfl, rfl, rfl, rfl, rfl⟩

theorem rests_dropTrees (session : Session) (id : EntityId) :
    session.Rests (session.dropTrees id) := by
  unfold dropTrees
  split
  · exact session.rests_refl
  · exact ⟨rfl, rfl, rfl, rfl, rfl⟩

end ConceptLaws.Session
