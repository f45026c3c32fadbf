import ConceptLaws.Proofs.Command.Tidiness
import ConceptLaws.Proofs.Session.Grounding

/-! Sessions that keep their trees tidy.
Resolving makes all trees anew and removes none of them out of order. Trees are removed out of order
when an entity is removed, so a session that has kept all its entities is tidy. -/

namespace ConceptLaws.Session

open Propagation

/-- The network has the limit of the settings, and no change in it is left to be noted. -/
structure Steady (session : Session) : Prop where
  limit : session.network.maxSteps = session.settings.maxCascadeSteps
  noted : session.network.changed = ∅

variable {session later : Session}

/-! ## Resolving -/

theorem stacks_clear (network : Network) : network.Stacks network.clear := by
  refine ⟨rfl, fun tidy => ?_⟩
  obtain ⟨count, tidy⟩ := tidy
  exact ⟨0, tidy.clear⟩

theorem stacks_seedEntity (session : Session) (id : EntityId) :
    session.network.Stacks (session.seedEntity id).network := by
  unfold seedEntity
  split
  · exact session.network.stacks_refl
  split
  · exact session.network.stacks_refl
  · exact session.network.stacks_createEntity _ _ _

theorem stacks_foldl_seedEntity (order : List EntityId) (session : Session) :
    session.network.Stacks (order.foldl seedEntity session).network := by
  induction order generalizing session with
  | nil => exact session.network.stacks_refl
  | cons first rest ih => exact (session.stacks_seedEntity first).trans (ih _)

theorem stacks_compileAll (session : Session) (order : List EntityId) (name : String) :
    session.network.Stacks (session.compileAll order name).2 := by
  unfold compileAll
  generalize (order.flatMap fun id =>
    (session.commandsOf id name).map fun source => (id, source)) = commands
  have folded (count : Nat) (network : Network) :
      network.Stacks (commands.foldl (compile ⟨session.relation, session.catalog, session.trees⟩)
        (count, network)).2 := by
    induction commands generalizing count network with
    | nil => exact network.stacks_refl
    | cons first rest ih =>
      exact (Command.stacks_compileSource _ first.1 network first.2).trans (ih _ _)
  exact folded 0 session.network

theorem sameFrame_activateAll (session : Session) (path : Path) (network : Network) :
    network.SameFrame (session.activateAll path network) :=
  (Network.sameFrame_foldl (fun later trees => later.sameFrame_activate ⟨EntityTrees.data trees, path⟩)
    session.trees.values network).trans (Network.sameFrame_settle _)

theorem stacks_resolve (session : Session) (name : String) :
    session.network.Stacks (session.resolve name).2.network := by
  have cleared : session.network.Stacks session.clearTrees.network := stacks_clear session.network
  have seeded := stacks_foldl_seedEntity session.relation.topological session.clearTrees
  have compiled := stacks_compileAll (session.relation.topological.foldl seedEntity
    session.clearTrees) session.relation.topological name
  have activated := sameFrame_activateAll (session.relation.topological.foldl seedEntity
    session.clearTrees) (Path.parse name) (compileAll (session.relation.topological.foldl seedEntity
      session.clearTrees) session.relation.topological name).2
  have done := ((cleared.trans seeded).trans compiled).trans activated.stacks
  exact ⟨done.maxSteps, done.tidy⟩

/-! ## Single operations -/

/-- The settings and the limit are the same; the network is tidy if it was, and no change is left to
be noted if none was. -/
structure Sustains (session later : Session) : Prop extends
    session.network.Stacks later.network where
  settings : later.settings = session.settings
  noted : session.network.changed = ∅ → later.network.changed = ∅

theorem Sustains.trans {first second third : Session} (earlier : first.Sustains second)
    (later : second.Sustains third) : first.Sustains third where
  toStacks := earlier.toStacks.trans later.toStacks
  settings := later.settings.trans earlier.settings
  noted none := later.noted (earlier.noted none)

/-- The trees are left alone. -/
theorem sustains_of_network (network : later.network = session.network)
    (settings : later.settings = session.settings) : session.Sustains later := by
  refine ⟨?_, settings, ?_⟩
  · rw [network]
    exact session.network.stacks_refl
  · rw [network]
    exact fun none => none

theorem sustains_flagChanged (session : Session) : session.Sustains session.flagChanged :=
  ⟨⟨rfl, fun tidy => tidy⟩, rfl, fun _ => rfl⟩

theorem sustains_resolve (session : Session) (name : String) :
    session.Sustains (session.resolve name).2 :=
  ⟨session.stacks_resolve name, (session.rests_resolve name).settings, fun _ => rfl⟩

theorem sustains_symbolize (session : Session) : session.Sustains session.symbolize :=
  session.sustains_resolve symbolSegment

theorem sustains_add {record : EntityRecord} (done : session.add record = .ok later) :
    session.Sustains later := by
  obtain ⟨relation, -, rfl⟩ := add_eq_ok done
  exact sustains_of_network rfl rfl

theorem sustains_setValue {id : EntityId} {value : Payload}
    (done : session.setValue id value = .ok later) : session.Sustains later := by
  obtain ⟨relation, -, rfl⟩ := setValue_eq_ok done
  exact sustains_of_network rfl rfl

theorem sustains_setConcept {id : EntityId} {concept : ConceptId}
    (done : session.setConcept id concept = .ok later) : session.Sustains later := by
  obtain ⟨relation, -, rfl⟩ := setConcept_eq_ok done
  exact sustains_of_network rfl rfl

theorem sustains_setParents {id : EntityId} {head reference : Option EntityId}
    (done : session.setParents id head reference = .ok later) : session.Sustains later := by
  obtain ⟨relation, -, rfl⟩ := setParents_eq_ok done
  exact sustains_of_network rfl rfl

theorem sustains_setField {id : EntityId} {path : Path} {value : Datum} {before : Option Datum}
    (done : session.setField id path value = .ok (before, later)) : session.Sustains later := by
  obtain ⟨key, network, -, edited, rfl⟩ := setField_eq_ok done
  have same : session.network.SameFrame network := by
    unfold Network.editField at edited
    split at edited
    · simp at edited
    dsimp only at edited
    split at edited
    · simp at edited
    obtain ⟨-, rfl⟩ := Prod.mk.inj (Except.ok.inj edited)
    exact ((session.network.sameFrame_ensure key).trans (Network.sameFrame_updateCell _ key _)).trans
      (Network.sameFrame_noteChange _ key)
  exact ⟨⟨same.maxSteps, same.stacks.tidy⟩, rfl, fun _ => rfl⟩

theorem sustains_setCatalog {catalog : Catalog} (done : session.setCatalog catalog = .ok later) :
    session.Sustains later := by
  obtain ⟨-, rfl⟩ | ⟨-, rfl⟩ := setCatalog_eq_ok done
  · exact sustains_of_network rfl rfl
  · exact ⟨stacks_clear session.network, rfl, fun none => none⟩

theorem sustains_evaluate (session : Session) (options : PassOptions) :
    session.Sustains (session.evaluate options).2 := by
  obtain ⟨pass, inferred, -, passed⟩ := session.evaluate_eq options
  rw [passed]
  exact session.sustains_flagChanged.trans (sustains_of_network rfl rfl)

theorem sustains_accept {map : MapId} (done : session.accept map = .ok later) :
    session.Sustains later := by
  obtain ⟨matcher, relation, -, rfl⟩ := accept_eq_ok done
  refine Sustains.trans ?_ (sustains_symbolize _)
  exact sustains_of_network rfl rfl

/-! ## Removing -/

theorem Steady.dropTrees (steady : session.Steady) (id : EntityId) :
    (session.dropTrees id).Steady := by
  unfold Session.dropTrees
  split
  · exact steady
  · exact ⟨steady.limit, steady.noted⟩

/-- A removed entity was there and is gone. -/
theorem contains_remove {id : EntityId} {removed : Entity}
    (done : session.remove id = .ok (removed, later)) :
    session.relation.contains id = true ∧ later.relation.contains id = false := by
  obtain ⟨relation, inferred, dirty, shrunk, rfl⟩ := remove_eq_dropTrees done
  obtain ⟨present, left⟩ := Relation.remove_eq_ok shrunk
  refine ⟨Relation.contains_iff.2 ⟨removed, present⟩, ?_⟩
  rw [(rests_dropTrees _ id).relation, Bool.eq_false_iff]
  intro contained
  obtain ⟨entity, found⟩ := Relation.contains_iff.1 contained
  rw [Relation.get?_recomputeDeep, left, if_pos rfl] at found
  simp at found

theorem Steady.remove (steady : session.Steady) {id : EntityId} {removed : Entity}
    (done : session.remove id = .ok (removed, later)) : later.Steady := by
  obtain ⟨relation, inferred, dirty, -, rfl⟩ := remove_eq_dropTrees done
  refine Steady.dropTrees ?_ id
  exact ⟨steady.limit, steady.noted⟩

/-! ## Whole sessions -/

/-- Every operation but the removal of an entity sustains the session. -/
theorem Step.sustains (step : Step session later) :
    session.Sustains later ∨ ∃ id removed, session.remove id = .ok (removed, later) := by
  cases step with
  | add done => exact .inl (sustains_add done)
  | @remove id removed _ done => exact .inr ⟨id, removed, done⟩
  | setValue done => exact .inl (sustains_setValue done)
  | setConcept done => exact .inl (sustains_setConcept done)
  | setParents done => exact .inl (sustains_setParents done)
  | setField done => exact .inl (sustains_setField done)
  | setCatalog _ done => exact .inl (sustains_setCatalog done)
  | evaluate options => exact .inl (session.sustains_evaluate options)
  | suggest => exact .inl ((session.sustains_evaluate .suggest).trans (sustains_symbolize _))
  | accept done => exact .inl (sustains_accept done)
  | resolve name => exact .inl (session.sustains_resolve name)

theorem Sustains.steady (sustains : session.Sustains later) (steady : session.Steady) :
    later.Steady where
  limit := by rw [sustains.maxSteps, steady.limit, sustains.settings]
  noted := sustains.noted steady.noted

theorem Step.steady (step : Step session later) (steady : session.Steady) : later.Steady := by
  rcases step.sustains with sustains | removal
  · exact sustains.steady steady
  · obtain ⟨id, removed, done⟩ := removal
    exact steady.remove done

theorem Reachable.steady {catalogs : List Catalog} (reached : Reachable catalogs session) :
    session.Steady := by
  induction reached with
  | ofRecords valid made =>
    obtain ⟨relation, -, rfl⟩ := ofRecords_eq_ok made
    exact ⟨rfl, rfl⟩
  | step _ step ih => exact step.steady ih

/-- Sessions that have kept all their entities. -/
inductive Growing : Session → Prop
  | ofRecords {catalog : Catalog} {settings : Settings} {records : List EntityRecord}
      {session : Session} (made : Session.ofRecords catalog settings records = .ok session) :
      Growing session
  | step {session later : Session} (growing : Growing session) (step : Step session later)
      (kept : ∀ id, session.relation.contains id = true → later.relation.contains id = true) :
      Growing later

theorem Growing.tidy (growing : Growing session) : session.network.Tidy := by
  induction growing with
  | ofRecords made =>
    obtain ⟨relation, -, rfl⟩ := ofRecords_eq_ok made
    exact ⟨0, Nat.le_refl 0, fun index => by simp [ofRelation, Network.empty, Arena.inUse, Arena.empty], rfl⟩
  | step _ step kept ih =>
    rcases step.sustains with sustains | removal
    · exact sustains.tidy ih
    · obtain ⟨id, removed, done⟩ := removal
      obtain ⟨present, absent⟩ := contains_remove done
      simp [kept id present] at absent

end ConceptLaws.Session
