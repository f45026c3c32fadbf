import ConceptLaws.Proofs.Command.Calls
import ConceptLaws.Proofs.Command.Composition
import ConceptLaws.Proofs.Command.Ordering
import ConceptLaws.Proofs.Session.Tidiness

/-! Resolution step by step.
All trees are cleared and those of the entities are made anew. Then the commands are compiled, one
after the other, and what they are to settle is activated. -/

namespace ConceptLaws

open Propagation

namespace Propagation.Network

variable {network : Network}

theorem Seeded.sameRoles {data : Handle} {later : Network} (seeded : Seeded data network later) :
    network.SameRoles later := by
  induction seeded with
  | none => exact fun _ => rfl
  | @more before _ path value known ih =>
    refine ih.trans ?_
    unfold Network.seed
    rw [ensureWith_eq]
    exact (before.sameRoles_ensure _).trans (sameRoles_updateCell _ _ _)

theorem dataRole?_createEntity (sound : network.trees.Sound) (entity : Entity) (concept : Concept)
    (precedence : Option Nat) :
    ((network.createEntity entity concept precedence).2.dataRole?
      (network.createEntity entity concept precedence).1.data).isSome = true ∧
    ∀ handle, (network.dataRole? handle).isSome = true →
      ((network.createEntity entity concept precedence).2.dataRole? handle).isSome = true := by
  have data := quiet_create sound (.data ⟨entity.id, precedence⟩)
  have table := quiet_create (data.sound sound) (.variableTable ⟨some entity.id, ∅⟩)
  have roles := (network.seeded_createEntity entity concept precedence).sameRoles
  have made : (network.create (.data ⟨entity.id, precedence⟩)).2.dataRole?
      (network.createEntity entity concept precedence).1.data = some ⟨entity.id, precedence⟩ := by
    have live : (network.create (.data ⟨entity.id, precedence⟩)).2.tree?
        (network.createEntity entity concept precedence).1.data =
          some (.ofRole (.data ⟨entity.id, precedence⟩)) :=
      (sound.get?_allocate _ _).trans (if_pos rfl)
    unfold dataRole?
    rw [live]
    rfl
  refine ⟨?_, fun handle present => ?_⟩
  · rw [roles.dataRole?, createTrees, table.data _ _ made]
    rfl
  · rw [roles.dataRole?]
    exact table.isData (data.isData present)

end Propagation.Network

namespace Command

/-- A network that was cleared is as good as new. -/
theorem unwired_clear {network : Network} (sound : network.trees.Sound) :
    Unwired network.clear := by
  have vacant : ∀ handle, network.clear.tree? handle = none := network.trees.get?_clear
  have bare : ∀ key, network.clear.cell? key = none := fun key => by
    simp [Network.cell?, vacant]
  refine ⟨⟨⟨sound.clear, fun handle tree live => ?_⟩, fun waiter source done held => ?_,
    fun waiter source member => ?_⟩, fun handle => ?_, fun key cell found => ?_⟩
  · simp [vacant] at live
  · obtain ⟨cell, edge, found, -⟩ := held
    simp [bare] at found
  · simp [Network.clear, Agenda.empty] at member
  · simp [Network.command?, vacant]
  · simp [bare] at found

/-- What a request calls for. -/
def Request.call : Request → Call
  | activate key => .activate key
  | settle => .settle
  | checkResolved key probe => .checkResolved key probe

theorem performCalls_requests (requests : List Request) (network : Network) :
    performCalls network (requests.map Request.call) = performAll network requests := by
  unfold performCalls performAll
  rw [List.foldl_map]
  congr 1
  funext network request
  cases request <;> rfl

/-- The calls that compile commands. -/
def compileCalls (context : Context) (commands : List (EntityId × String)) : List Call :=
  commands.map fun command => .compileSource context command.1 command.2

theorem performCalls_compileCalls (context : Context) (commands : List (EntityId × String))
    (network : Network) :
    performCalls network (compileCalls context commands) = compileAll context network commands := by
  unfold performCalls compileCalls compileAll
  rw [List.foldl_map]
  rfl

end Command

namespace Session

open Command

/-- What commands are compiled with. -/
def context (session : Session) : Context := ⟨session.relation, session.catalog, session.trees⟩

/-- The session with new trees for its entities. -/
def seeded (session : Session) : Session :=
  session.relation.topological.foldl seedEntity session.clearTrees

/-- The commands for an attribute, in the order in which they are compiled. -/
def scripts (session : Session) (name : String) : List (EntityId × String) :=
  session.relation.topological.flatMap fun id =>
    (session.commandsOf id name).map fun source => (id, source)

/-- What is requested once the commands are compiled. -/
def requests (session : Session) (name : String) : List Request :=
  session.seeded.trees.values.map (fun trees => .activate ⟨trees.data, Path.parse name⟩) ++
    [.settle]

/-- All that resolving an attribute calls for on the new trees. -/
def calls (session : Session) (name : String) : List Call :=
  compileCalls session.seeded.context (session.scripts name) ++
    (session.requests name).map Request.call

/-- What is done when an attribute is resolved. -/
def resolveDeeds (session : Session) (name : String) : List Deed :=
  callDeeds session.seeded.network (session.calls name)

variable {session later : Session}

theorem compileAll_eq (session : Session) (order : List EntityId) (name : String) :
    (session.compileAll order name).2 = Command.compileAll session.context session.network
      (order.flatMap fun id => (session.commandsOf id name).map fun source => (id, source)) := by
  unfold Session.compileAll Command.compileAll
  dsimp only
  generalize (order.flatMap fun id =>
    (session.commandsOf id name).map fun source => (id, source)) = commands
  have folded (count : Nat) (network : Network) :
      (commands.foldl (compile ⟨session.relation, session.catalog, session.trees⟩)
        (count, network)).2 = commands.foldl (fun network command =>
          (compileSource session.context network command.1 command.2).2) network := by
    induction commands generalizing count network with
    | nil => rfl
    | cons first rest ih => exact ih _ _
  exact folded 0 session.network

theorem activateAll_eq (session : Session) (path : Path) (network : Network) :
    session.activateAll path network = performAll network
      (session.trees.values.map (fun trees => .activate ⟨trees.data, path⟩) ++ [.settle]) := by
  unfold activateAll performAll
  rw [List.foldl_append, List.foldl_map]
  rfl

theorem commandsOf_seeded (session : Session) (id : EntityId) (name : String) :
    session.seeded.commandsOf id name = session.commandsOf id name := by
  have cleared : session.Rests session.clearTrees := ⟨rfl, rfl, rfl, rfl, rfl⟩
  have rests := cleared.trans (rests_foldl_seedEntity session.relation.topological _)
  unfold commandsOf seeded
  rw [rests.relation, rests.catalog, rests.inferred]

theorem resolve_eq (session : Session) (name : String) :
    (session.resolve name).2 = { session.seeded with
      network := performAll (Command.compileAll session.seeded.context session.seeded.network
        (session.scripts name)) (session.requests name) }.flagChanged := by
  have scripts : session.scripts name = session.relation.topological.flatMap fun id =>
      (session.seeded.commandsOf id name).map fun source => (id, source) := by
    simp only [commandsOf_seeded]
    rfl
  rw [scripts, ← compileAll_eq, requests, ← activateAll_eq]
  rfl

theorem resolve_eq_performCalls (session : Session) (name : String) :
    (session.resolve name).2 = { session.seeded with
      network := performCalls session.seeded.network (session.calls name) }.flagChanged := by
  rw [resolve_eq, calls, performCalls_append, performCalls_compileCalls, performCalls_requests]

/-! ## New trees -/

/-- Nothing but seeds, and the tree of every entity is there. -/
structure Fresh (session : Session) : Prop where
  unwired : Unwired session.network
  housed : ∀ (id : EntityId) (trees : EntityTrees), session.trees[id]? = some trees →
    (session.network.dataRole? trees.data).isSome = true

theorem Fresh.planted (fresh : session.Fresh) : Planted session.trees session.network := by
  intro id trees found
  obtain ⟨tree, live⟩ := Network.tree?_of_dataRole? (fresh.housed id trees found)
  rw [live]
  rfl

theorem Fresh.seedEntity (fresh : session.Fresh) (id : EntityId) :
    (session.seedEntity id).Fresh := by
  unfold Session.seedEntity
  split
  · exact fresh
  rename_i entity _
  split
  · exact fresh
  rename_i concept _
  obtain ⟨made, kept⟩ := Network.dataRole?_createEntity fresh.unwired.sound.arena entity concept
    (session.catalog.precedence? entity.concept session.settings.symbolPrecedence)
  refine ⟨fresh.unwired.createEntity entity concept _, fun other trees found => ?_⟩
  rw [Std.ExtTreeMap.getElem?_insert] at found
  split at found
  · obtain rfl := Option.some.inj found
    exact made
  · exact kept _ (fresh.housed other trees found)

theorem fresh_seeded (sound : session.network.trees.Sound) : session.seeded.Fresh := by
  have seed (order : List EntityId) {start : Session} (fresh : start.Fresh) :
      (order.foldl Session.seedEntity start).Fresh := by
    induction order generalizing start with
    | nil => exact fresh
    | cons first rest ih => exact ih (fresh.seedEntity first)
  exact seed _ ⟨unwired_clear sound, fun id trees found => by simp [clearTrees] at found⟩

/-- Between their deeds the calls of a resolution leave the values of the entities alone. -/
theorem trace_calls_of (session : Session) (name : String) (calls : List Call)
    (listed : ∀ call ∈ calls, call ∈ session.calls name) {network : Network}
    (sound : network.trees.Sound) :
    Network.Trace Network.Quiet network (callDeeds network calls) (performCalls network calls) := by
  refine trace_performCalls_of (fun _ _ quiet => quiet.toKeeps) _
    (fun call member network arena => ?_) sound
  rcases List.mem_append.1 (listed call member) with compiles | requested
  · obtain ⟨command, -, rfl⟩ := List.mem_map.1 compiles
    exact trace_compileSource session.seeded.context command.1 arena command.2
  · obtain ⟨request, listed, rfl⟩ := List.mem_map.1 requested
    cases request with
    | activate key => exact .edit (fun _ => network.quiet_activateFrom key) (Network.trace_drain _)
    | settle => exact .edit (fun _ => network.quiet_updateAgenda _) (Network.trace_drain _)
    | checkResolved => simp [requests] at listed

theorem trace_calls (sound : session.network.trees.Sound) (name : String) :
    Network.Trace Network.Quiet session.seeded.network (session.resolveDeeds name)
      (performCalls session.seeded.network (session.calls name)) :=
  session.trace_calls_of name _ (fun _ => id) (fresh_seeded sound).unwired.sound.arena

/-! ## Sessions as callers -/

/-- A network that calls lead to. -/
def Served (network later : Network) : Prop := ∃ calls, later = performCalls network calls

theorem served_refl (network : Network) : Served network network := ⟨[], rfl⟩

theorem served_call (network : Network) (call : Call) : Served network (call.perform network) :=
  ⟨[call], rfl⟩

theorem Served.trans {first second third : Network} (earlier : Served first second)
    (later : Served second third) : Served first third := by
  obtain ⟨calls, rfl⟩ := earlier
  obtain ⟨more, rfl⟩ := later
  exact ⟨calls ++ more, (performCalls_append first calls more).symm⟩

theorem Served.sound {network later : Network} (served : Served network later)
    (sound : network.trees.Sound) : later.trees.Sound := by
  obtain ⟨calls, rfl⟩ := served
  exact (keeps_performCalls sound calls).sound sound

theorem served_flagChanged (session : Session) :
    Served session.network session.flagChanged.network :=
  served_call session.network .takeChanged

theorem served_foldl_seedEntity (order : List EntityId) (session : Session) :
    Served session.network (order.foldl seedEntity session).network := by
  induction order generalizing session with
  | nil => exact served_refl _
  | cons first rest ih =>
    refine Served.trans ?_ (ih _)
    unfold seedEntity
    split
    · exact served_refl _
    split
    · exact served_refl _
    · exact served_call session.network (.createEntity _ _ _)

theorem served_resolve (session : Session) (name : String) :
    Served session.network (session.resolve name).2.network := by
  have cleared : Served session.network session.clearTrees.network :=
    served_call session.network .clear
  have seeded := cleared.trans (served_foldl_seedEntity session.relation.topological _)
  have called : Served session.seeded.network
      (performCalls session.seeded.network (session.calls name)) := ⟨_, rfl⟩
  rw [resolve_eq_performCalls]
  exact (seeded.trans called).trans (served_flagChanged { session.seeded with network := _ })

theorem served_symbolize (session : Session) :
    Served session.network session.symbolize.network :=
  session.served_resolve symbolSegment

theorem served_evaluate (session : Session) (options : PassOptions) :
    Served session.network (session.evaluate options).2.network := by
  obtain ⟨pass, inferred, -, passed⟩ := session.evaluate_eq options
  rw [passed]
  exact session.served_flagChanged

theorem served_remove {id : EntityId} {removed : Entity}
    (done : session.remove id = .ok (removed, later)) : Served session.network later.network := by
  obtain ⟨relation, inferred, dirty, -, rfl⟩ := remove_eq_dropTrees done
  unfold dropTrees
  split
  · exact served_refl _
  · rename_i trees _
    exact ⟨[.remove trees.data, .remove trees.variableTable], rfl⟩

theorem served_setField {id : EntityId} {path : Path} {value : Datum} {before : Option Datum}
    (done : session.setField id path value = .ok (before, later)) :
    Served session.network later.network := by
  obtain ⟨key, network, -, edited, rfl⟩ := setField_eq_ok done
  have written : Served session.network network := by
    refine ⟨[.editField id key value], ?_⟩
    simp [performCalls, Call.perform, Network.edit, edited]
  exact written.trans (served_flagChanged { session with network })

theorem served_setCatalog {catalog : Catalog} (done : session.setCatalog catalog = .ok later) :
    Served session.network later.network := by
  obtain ⟨-, rfl⟩ | ⟨-, rfl⟩ := setCatalog_eq_ok done
  · exact served_refl _
  · exact served_call session.network .clear

/-- Whatever a session does to its trees it calls for. -/
theorem Step.served (step : Step session later) : Served session.network later.network := by
  cases step with
  | add done =>
    obtain ⟨relation, -, rfl⟩ := add_eq_ok done
    exact served_refl _
  | remove done => exact served_remove done
  | setValue done =>
    obtain ⟨relation, -, rfl⟩ := setValue_eq_ok done
    exact served_refl _
  | setConcept done =>
    obtain ⟨relation, -, rfl⟩ := setConcept_eq_ok done
    exact served_refl _
  | setParents done =>
    obtain ⟨relation, -, rfl⟩ := setParents_eq_ok done
    exact served_refl _
  | setField done => exact served_setField done
  | setCatalog _ done => exact served_setCatalog done
  | evaluate options => exact session.served_evaluate options
  | suggest => exact (session.served_evaluate .suggest).trans (served_symbolize _)
  | accept done =>
    obtain ⟨matcher, relation, -, rfl⟩ := accept_eq_ok done
    exact Served.trans (served_refl _) (served_symbolize _)
  | resolve name => exact session.served_resolve name

theorem Reachable.served {catalogs : List Catalog} (reached : Reachable catalogs session) :
    ∃ maxSteps, Served (.empty maxSteps) session.network := by
  induction reached with
  | ofRecords valid made =>
    obtain ⟨relation, -, rfl⟩ := ofRecords_eq_ok made
    exact ⟨_, served_refl _⟩
  | step _ step ih =>
    obtain ⟨maxSteps, served⟩ := ih
    exact ⟨maxSteps, served.trans step.served⟩

theorem Reachable.arena {catalogs : List Catalog} (reached : Reachable catalogs session) :
    session.network.trees.Sound := by
  obtain ⟨maxSteps, served⟩ := reached.served
  exact served.sound Arena.sound_empty

end Session

end ConceptLaws

/-! Symbols after a resolution.
Whatever else the commands do, a symbol that is complete when the symbols have been resolved is what
the parts make up that stand below it then. -/

namespace ConceptLaws.Session

open Propagation Command

variable {session : Session}

/-- The looks that are taken once the commands are compiled. -/
def resolveLooks (session : Session) (name : String) : List Look :=
  allLooks (Command.compileAll session.seeded.context session.seeded.network
    (session.scripts name)) (session.requests name)

theorem mem_scripts {name : String} {command : EntityId × String}
    (member : command ∈ session.scripts name) : command.2 ∈ session.commandsOf command.1 name := by
  obtain ⟨id, -, listed⟩ := List.mem_flatMap.1 member
  obtain ⟨source, written, rfl⟩ := List.mem_map.1 listed
  exact written

/-- What holds of all commands of the concepts and of all inferred ones holds of those of every
entity. -/
theorem forall_commandsOf {name : String} {property : String → Prop}
    (written : ∀ entity ∈ session.relation.toList,
      ∀ source ∈ session.catalog.commandsFor entity.concept name, property source)
    (inferred : ∀ command ∈ session.inferred.values, property command.source) (id : EntityId) :
    ∀ source ∈ session.commandsOf id name, property source := by
  intro source member
  unfold commandsOf at member
  split at member
  · simp at member
  rename_i entity found
  rcases List.mem_append.1 member with own | contributed
  · exact written entity (mem_values.2 ⟨id, found⟩) source own
  · obtain ⟨command, kept, rfl⟩ := List.mem_map.1 contributed
    exact inferred command (List.mem_filter.1 kept).1

/-- The data tree of every entity is there to the end. -/
theorem dataRole?_resolve (sound : session.network.trees.Sound) (name : String) {id : EntityId}
    {trees : EntityTrees} (found : (session.resolve name).2.trees[id]? = some trees) :
    ((session.resolve name).2.network.dataRole? trees.data).isSome = true := by
  rw [resolve_eq_performCalls] at found ⊢
  have fresh := fresh_seeded sound
  have retains := (trace_calls sound name).retains fresh.unwired.sound.arena
  exact retains.isData (fresh.housed id trees found)

/-- If no command names or binds a variable or has the root of a data tree for its target, every
symbol that is complete after a resolution is what its parts make up then. No command that writes at
or below a symbol is executed once the symbol is complete, and what stands below it then stays. -/
theorem symbols_rendered {catalogs : List Catalog} (reached : Reachable catalogs session)
    (plain : ∀ id, ∀ source ∈ session.commandsOf id symbolSegment,
      isPlainSource source = true ∧ isAimedSource source = true)
    (id : EntityId) (trees : EntityTrees) (found : session.symbolize.trees[id]? = some trees) :
    (session.symbolize.network.isPropagated ⟨trees.data, symbolPath⟩ = true →
      session.symbolize.network.HasRendered trees.data) ∧
    ∀ look ∈ session.resolveLooks symbolSegment,
      (look.network.isPropagated ⟨trees.data, symbolPath⟩ = true →
        session.symbolize.network.isPropagated ⟨trees.data, symbolPath⟩ = true ∧
        ∀ path, path.isBelow symbolPath = true →
          session.symbolize.network.value? ⟨trees.data, path⟩ =
            look.network.value? ⟨trees.data, path⟩) ∧
      ∀ handle command target, look.answer = .ready → look.key = .ofTree handle →
        look.network.command? handle = some command → command.target = some target →
          target.tree = trees.data → target.path.isWithin symbolPath = true →
            look.network.isPropagated ⟨trees.data, symbolPath⟩ = false := by
  have data := dataRole?_resolve reached.arena symbolSegment found
  have fresh := fresh_seeded reached.arena
  have plainAll : ∀ command ∈ session.scripts symbolSegment, isPlainSource command.2 = true :=
    fun command member => (plain command.1 command.2 (mem_scripts member)).1
  have aimedAll : ∀ command ∈ session.scripts symbolSegment, isAimedSource command.2 = true :=
    fun command member => (plain command.1 command.2 (mem_scripts member)).2
  have planted : Planted session.seeded.context.trees session.seeded.network := fresh.planted
  have idle := fresh.unwired.idle.compileAll planted plainAll
  have aimed := fresh.unwired.idle.aimed_compileAll fresh.unwired.aimed planted plainAll aimedAll
  have passage := passage_performAll (session.requests symbolSegment) idle.sound
  have final : session.symbolize = { session.seeded with
      network := performAll (Command.compileAll session.seeded.context session.seeded.network
        (session.scripts symbolSegment)) (session.requests symbolSegment) }.flagChanged :=
    session.resolve_eq symbolSegment
  unfold resolveLooks
  change (session.symbolize.network.dataRole? trees.data).isSome = true at data
  rw [final] at data ⊢
  generalize Command.compileAll session.seeded.context session.seeded.network
    (session.scripts symbolSegment) = compiled at *
  obtain ⟨composes, seen⟩ := idle.composes_passage aimed passage
  have start : compiled.Composed := fun handle _ done => by simp [idle.quiet] at done
  refine ⟨fun done => composes.composed start trees.data data done, fun look member => ?_⟩
  obtain ⟨wired, later, stands⟩ := seen look member
  have dataThen : (look.network.dataRole? trees.data).isSome = true := by
    rw [← later.data]
    exact data
  refine ⟨fun done => later.frozen trees.data dataThen done,
    fun handle command target answer root present writes sameTree within => ?_⟩
  have ready : look.network.standing (.ofTree handle) = .ready := root ▸ stands answer
  have incomplete := wired.incomplete present (wired.ordered present ready).1 writes within
  rwa [sameTree] at incomplete

/-! ## A symbol with an index -/

/-- Two concepts; the commands of the first one set its own symbol and the index of the symbol of
the entity at its head. -/
def indexDefinition : Definition where
  concepts := [⟨⟨1⟩, "c", [], (∅ : Std.ExtTreeMap String (List String)).insert "symbol"
      ["A.symbol.subscript = \x7b\x7bsymbol.text\x7d\x7d",
        "symbol.text = \x7b\x7bconcept.name\x7d\x7d"], none, false⟩,
    ⟨⟨2⟩, "d", [], ∅, some "e", false⟩]
  laws := []

def indexCatalog : Catalog where
  definition := indexDefinition
  lineages := (∅ : Std.ExtTreeMap ConceptId (List ConceptId)).insertMany
    [((⟨1⟩ : ConceptId), [(⟨1⟩ : ConceptId)]), (⟨2⟩, [⟨2⟩])]
  fingerprint := Fingerprint.ofContent Fingerprint.catalogDomain indexDefinition.toCbor

theorem valid_indexCatalog : indexCatalog.Valid := by
  have concepts : indexDefinition.checkConcepts = .ok () := rfl
  have lineages : indexDefinition.lineages = .ok indexCatalog.lineages := rfl
  have laws : indexDefinition.checkLaws [] [] indexDefinition.laws = .ok () := rfl
  refine ⟨indexDefinition, ?_⟩
  unfold Catalog.ofDefinition
  rw [concepts, lineages, laws]
  rfl

def indexRecords : List EntityRecord :=
  [⟨⟨1⟩, ⟨2⟩, none, none, .empty, none⟩, ⟨⟨2⟩, ⟨1⟩, some ⟨1⟩, none, .empty, none⟩]

def indexed : Session := ofRelation indexCatalog .standard
  ((Relation.ofRecords indexRecords indexCatalog).toOption.getD .empty)

/-- The second entity writes to the symbol of the first one before that is put together. -/
theorem symbols_rendered_indexed :
    indexed.symbolize.network.HasRendered ⟨0, 0⟩ ∧
    (indexed.symbolize.network.value? ⟨⟨0, 0⟩, symbolPath⟩).map Datum.display =
      some "<msub><mrow>e</mrow><mrow>c</mrow></msub>" := by
  have made : Session.ofRecords indexCatalog .standard indexRecords = .ok indexed := rfl
  have plain : ∀ id, ∀ source ∈ indexed.commandsOf id symbolSegment,
      isPlainSource source = true ∧ isAimedSource source = true :=
    forall_commandsOf (by decide +kernel) (by decide +kernel)
  have found : indexed.symbolize.trees[(⟨1⟩ : EntityId)]? = some ⟨⟨0, 0⟩, ⟨1, 0⟩⟩ := by
    decide +kernel
  obtain ⟨rendered, -⟩ :=
    symbols_rendered (.ofRecords valid_indexCatalog made) plain ⟨1⟩ ⟨⟨0, 0⟩, ⟨1, 0⟩⟩ found
  have state : indexed.symbolize.network.isPropagated ⟨⟨0, 0⟩, symbolPath⟩ = true ∧
      (indexed.symbolize.network.value? ⟨⟨0, 0⟩, symbolPath⟩).map Datum.display =
        some "<msub><mrow>e</mrow><mrow>c</mrow></msub>" := by
    simp only [symbolize, resolve, activateAll, Network.activate_eq, Network.settle_eq]
    decide +kernel
  exact ⟨rendered state.1, state.2⟩

end ConceptLaws.Session
