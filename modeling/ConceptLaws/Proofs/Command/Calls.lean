import ConceptLaws.Proofs.Arena.Tidy
import ConceptLaws.Proofs.Command.Deeds
import ConceptLaws.Proofs.Propagation.Deactivation
import ConceptLaws.Proofs.Propagation.Ledger
import ConceptLaws.Proofs.Propagation.Manual

/-! Calls.
Whatever is called for on a network, in whatever order, every callback of an edge is run at most
once and every command is carried out at most once: deactivated keys, removed trees and cascades
that were cut off make no difference. -/

namespace ConceptLaws.Propagation

namespace Network

variable {network later : Network}

/-! ## Steady changes -/

theorem keeps_ensureWith (network : Network) (key : Address) (change : Cell → Cell)
    (waiting : ∀ cell, (change cell).waiting = cell.waiting) :
    network.Keeps (network.ensureWith key change) := by
  rw [ensureWith_eq]
  exact (network.quiet_ensure key).toKeeps.trans
    (keeps_updateCell fun cell _ => Cell.holds_of_waiting (waiting cell))

theorem steady_ensureWith (network : Network) (key : Address) (change : Cell → Cell)
    (waiting : ∀ cell, (change cell).waiting = cell.waiting) :
    network.Steady (network.ensureWith key change) :=
  ⟨network.keeps_ensureWith key change waiting, rfl, rfl⟩

theorem Seeded.steady {data : Handle} (seeded : Seeded data network later) :
    network.Steady later := by
  induction seeded with
  | none => exact network.quiet_refl.steady
  | more _ path value known ih => exact ih.trans (steady_ensureWith _ _ _ fun _ => rfl)

theorem steady_createEntity (sound : network.trees.Sound) (entity : Entity) (concept : Concept)
    (precedence : Option Nat) :
    network.Steady (network.createEntity entity concept precedence).2 := by
  have data := quiet_create sound (.data ⟨entity.id, precedence⟩)
  have created := data.trans (quiet_create (data.sound sound) (.variableTable ⟨some entity.id, ∅⟩))
  exact created.steady.trans (network.seeded_createEntity entity concept precedence).steady

theorem steady_remove (network : Network) (handle : Handle) :
    network.Steady (network.remove handle).2 :=
  ⟨network.keeps_remove handle, rfl, rfl⟩

/-- All trees go at once. -/
theorem keeps_clear (network : Network) : network.Keeps network.clear where
  sound sound := sound.clear
  issued _ issued := issued.clear
  stale handle _ _ := network.trees.get?_clear handle
  edges waiter _ _ _ := Or.inl (network.trees.get?_clear waiter.tree)
  commands handle _ _ := Or.inl (network.trees.get?_clear handle)

theorem Lowers.keeps (lowers : network.Lowers later) : network.Keeps later where
  sound := lowers.arena
  issued := lowers.issued
  stale handle _ gone := by simpa [gone] using lowers.role handle
  edges waiter source edge held := by
    obtain ⟨before, found, waits⟩ := edge?_eq_some_iff.1 held
    obtain ⟨after, foundAfter, rfl | rfl⟩ := lowers.kept found
    · exact Or.inr ⟨edge, edge?_eq_some_iff.2 ⟨_, foundAfter, waits⟩, Or.inl rfl⟩
    · refine Or.inr ⟨{ edge with satisfied := false },
        edge?_eq_some_iff.2 ⟨_, foundAfter, ?_⟩, Or.inl rfl⟩
      simp [Cell.deactivated, waits]
  commands handle command found := by
    refine Or.inr ⟨command, ?_, command.grows_refl⟩
    unfold command? at found ⊢
    rwa [lowers.role]

theorem counts_deactivateWithin (depth : Nat) (network : Network) (key : Address) :
    (network.deactivateWithin depth key).2.counts = network.counts := by
  induction depth generalizing network key with
  | zero => rfl
  | succ depth ih =>
    unfold deactivateWithin
    split
    · rfl
    split
    · rfl
    split
    · rfl
    dsimp only
    split
    · rfl
    · have lowered : ∀ (network : Network) (entry : Path × Cell),
          (network.updateCell ⟨key.tree, entry.1⟩ Cell.deactivated).counts = network.counts :=
        fun _ _ => rfl
      exact (counts_foldl (fun network source => ih network source) _ _).trans
        (counts_foldl lowered _ _)

theorem steady_deactivate (network : Network) (key : Address) :
    network.Steady (network.deactivate key).2 :=
  have counts := network.counts_deactivateWithin (network.activeCount + 1) key
  ⟨(network.lowers_deactivate key).keeps, congrArg _ counts, congrArg _ counts⟩

theorem steady_editField {before : Option Datum} {entity : EntityId} {key : Address} {value : Datum}
    (edited : network.editField entity key value = .ok (before, later)) :
    network.Steady later := by
  unfold editField at edited
  split at edited
  · cases edited
  dsimp only at edited
  split at edited
  · cases edited
  obtain ⟨-, rfl⟩ := Prod.mk.inj (Except.ok.inj edited)
  have written : (network.ensure key).Steady ((network.ensure key).updateCell key fun cell =>
      { cell.replace (some value) with known := true }) :=
    ⟨keeps_updateCell fun _ _ => Cell.holds_of_waiting rfl, rfl, rfl⟩
  exact ((network.quiet_ensure key).steady.trans written).trans (quiet_noteChange _ key).steady

theorem steady_setKnown (network : Network) (key : Address) (recursive : Bool) :
    network.Steady (network.setKnown id key recursive) := by
  unfold setKnown
  split
  · exact network.quiet_refl.steady
  have top := network.steady_ensureWith key (fun cell => { cell with known := true }) fun _ => rfl
  cases recursive with
  | false => exact top.trans (quiet_updateAgenda _ _).steady
  | true =>
    refine (top.trans ?_).trans (quiet_updateAgenda _ _).steady
    simp only [if_true]
    obtain ⟨paths, same⟩ := updateTree_subtree
      (network.ensureWith key fun cell => { cell with known := true }) key.tree key.path
        fun cell => { cell with known := true }
    rw [same]
    clear same
    generalize network.ensureWith key (fun cell => { cell with known := true }) = start
    induction paths generalizing start with
    | nil => exact start.quiet_refl.steady
    | cons first rest ih =>
      have head : start.Steady (start.updateCell ⟨key.tree, first⟩ fun cell =>
          { cell with known := true }) :=
        ⟨keeps_updateCell fun _ _ => Cell.holds_of_waiting rfl, rfl, rfl⟩
      exact head.trans (ih _)

theorem trace_drained {network later : Network} (steady : network.Steady later) :
    Trace Steady network (drainDeeds later) later.drain :=
  .edit (fun _ => steady) ((trace_drain later).mono fun _ _ quiet => quiet.steady)

theorem trace_changed {network later : Network} (steady : network.Steady later) :
    Trace Steady network [] later :=
  trace_of_between fun _ => steady

/-- The deeds of a key that is made known. -/
def knowDeeds (network : Network) (key : Address) (recursive : Bool) : List Deed :=
  match network.tree? key.tree with
  | none => []
  | some _ => drainDeeds (network.setKnown id key recursive)

theorem trace_know (network : Network) (key : Address) (recursive : Bool) :
    Trace Steady network (network.knowDeeds key recursive) (network.know key recursive) := by
  have known := network.steady_setKnown key recursive
  unfold knowDeeds know
  cases live : network.tree? key.tree with
  | none =>
    have same : network.setKnown drain key recursive = network := by simp [setKnown, live]
    rw [same]
    exact .refl network
  | some tree =>
    have same : network.setKnown drain key recursive =
        (network.setKnown id key recursive).drain := by simp [setKnown, live]
    rw [same]
    exact trace_drained known

theorem steady_edit (network : Network) (entity : EntityId) (key : Address) (value : Datum) :
    network.Steady (network.edit entity key value) := by
  unfold edit
  split
  · rename_i edited
    exact steady_editField edited
  · exact network.quiet_refl.steady

/-! ## Waiting again -/

/-- The keys that wait on a key. -/
def triggers (network : Network) (key : Address) : Std.ExtTreeSet Address :=
  ((network.cell? key).map Cell.triggers).getD ∅

/-- There is an edge, and to wait again adds neither an edge nor a trigger and changes none. -/
def WaitsAlready (network : Network) (waiter source : Address) : Prop :=
  (∃ edge, network.edge? waiter source = some edge) ∧
    ∀ callback, ∃ same : Network,
      network.wait waiter source callback = (false, same.drain) ∧
      (∀ key other, same.edge? key other = network.edge? key other) ∧
      ∀ key, same.triggers key = network.triggers key

theorem triggers_ensure (network : Network) (key query : Address) :
    (network.ensure key).triggers query = network.triggers query := by
  unfold triggers
  rcases network.cell?_ensure_cases key query with same | ⟨absent, active, new⟩
  · rw [same]
  · rw [absent, new]
    rfl

theorem edge?_ensureWith (network : Network) (key : Address) (change : Cell → Cell)
    (waiting : ∀ cell, (change cell).waiting = cell.waiting) (waiter source : Address) :
    (network.ensureWith key change).edge? waiter source = network.edge? waiter source := by
  rw [ensureWith_eq, edge?_updateCell _ key change waiting, edge?_ensure]

theorem edge?_prepareWaiter (network : Network) (waiter key other : Address) :
    (network.prepareWaiter waiter).edge? key other = network.edge? key other := by
  refine network.edge?_ensureWith waiter _ ?_ key other
  exact fun _ => rfl

theorem triggers_prepareWaiter (network : Network) (waiter key : Address) :
    (network.prepareWaiter waiter).triggers key = network.triggers key := by
  rw [← network.triggers_ensure waiter key]
  unfold prepareWaiter triggers
  rw [ensureWith_eq, cell?_updateCell]
  split
  · rename_i same
    subst same
    cases (network.ensure key).cell? key <;> rfl
  · rfl

theorem waitsAlready_of_edge? {waiter source : Address} {edge : Edge}
    (held : network.edge? waiter source = some edge) : network.WaitsAlready waiter source := by
  refine ⟨⟨edge, held⟩, fun callback => ?_⟩
  by_cases gone : (network.tree? waiter.tree).isNone || (network.tree? source.tree).isNone
  · have answers : network.waitOn waiter source callback = (false, network) := if_pos gone
    exact ⟨network, by simp only [wait, answers], fun _ _ => rfl, fun _ => rfl⟩
  · have present : (((network.prepareWaiter waiter).cell? waiter).map fun cell =>
        cell.waiting.contains source).getD false = true := by
      have prepared := (network.edge?_prepareWaiter waiter waiter source).trans held
      obtain ⟨cell, found, waits⟩ := edge?_eq_some_iff.1 prepared
      rw [found, Option.map_some, Option.getD_some, Std.ExtTreeMap.contains_eq_isSome_getElem?,
        waits]
      rfl
    have answers : network.waitOn waiter source callback =
        (false, network.prepareWaiter waiter) := (if_neg gone).trans (if_pos present)
    exact ⟨network.prepareWaiter waiter, by simp only [wait, answers],
      network.edge?_prepareWaiter waiter, network.triggers_prepareWaiter waiter⟩

/-- There is an edge, unless the tree of the waiter is gone. -/
def Joined (network : Network) (waiter source : Address) : Prop :=
  network.tree? waiter.tree = none ∨ ∃ edge, network.edge? waiter source = some edge

theorem Keeps.joined (keeps : network.Keeps later) {waiter source : Address}
    (issued : network.trees.Issued waiter.tree) (joined : network.Joined waiter source) :
    later.Joined waiter source := by
  rcases joined with gone | ⟨edge, held⟩
  · exact Or.inl (keeps.stale _ issued gone)
  · exact (keeps.edges waiter source edge held).imp_right fun ⟨after, found, _⟩ => ⟨after, found⟩

theorem cell?_prepareWaiter {waiter : Address} (live : (network.tree? waiter.tree).isSome) :
    ∃ cell, (network.prepareWaiter waiter).cell? waiter = some cell := by
  obtain ⟨tree, found⟩ := Option.isSome_iff_exists.1 live
  obtain ⟨cell, present⟩ := tree.cell?_ensure_self waiter.path
  have ensured : (network.ensure waiter).cell? waiter = some cell :=
    cell?_eq_some_iff.2 ⟨tree.ensure waiter.path, by rw [tree?_ensure, if_pos rfl, found]; rfl,
      present⟩
  unfold prepareWaiter
  rw [ensureWith_eq, cell?_updateCell, if_pos rfl, ensured]
  exact ⟨_, rfl⟩

theorem joined_waitOn {waiter source : Address} (waiterLive : (network.tree? waiter.tree).isSome)
    (sourceLive : (network.tree? source.tree).isSome) (callback : Option Callback) :
    (network.waitOn waiter source callback).2.Joined waiter source := by
  obtain ⟨cell, found⟩ := cell?_prepareWaiter waiterLive
  obtain ⟨tree, live⟩ := Option.isSome_iff_exists.1 waiterLive
  have quiet := network.quiet_waitOn waiter source callback
  have prepared := network.quiet_prepareWaiter waiter
  have known : ((network.prepareWaiter waiter).addEdge waiter source callback).trees.Issued
      waiter.tree := (prepared.issued _ (issued_of_tree? live)).update _ _
  have added : ((network.prepareWaiter waiter).addEdge waiter source callback).Joined waiter
      source := by
    refine Or.inr ⟨⟨false, callback⟩, edge?_eq_some_iff.2
      ⟨{ cell with waiting := cell.waiting.insert source ⟨false, callback⟩ }, ?_, by simp⟩⟩
    unfold addEdge
    rw [cell?_updateCell, if_pos rfl, found]
    rfl
  unfold waitOn
  rw [if_neg (by simp [Option.isNone_iff_eq_none, ← Option.not_isSome_iff_eq_none, waiterLive,
    sourceLive])]
  dsimp only
  split
  · rename_i present
    rw [found, Option.map_some, Option.getD_some,
      Std.ExtTreeMap.contains_eq_isSome_getElem?] at present
    obtain ⟨edge, waits⟩ := Option.isSome_iff_exists.1 present
    exact Or.inr ⟨edge, edge?_eq_some_iff.2 ⟨cell, found, waits⟩⟩
  · have linked := quiet_ensureWith ((network.prepareWaiter waiter).addEdge waiter source callback)
      source (fun cell => { cell with triggers := cell.triggers.insert waiter })
      (fun _ => rfl) (fun _ _ => id) fun _ => rfl
    refine Keeps.joined ?_ known added
    have told (later : Network)
        (same : ((network.prepareWaiter waiter).addEdge waiter source callback).Quiet later) :
        ((network.prepareWaiter waiter).addEdge waiter source callback).Keeps
          (later.updateAgenda fun agenda => agenda.pushResolve waiter source) :=
      (same.trans (later.quiet_updateAgenda _)).toKeeps
    split
    · apply told
      split
      · exact linked.trans (quiet_activateFrom _ source)
      · exact linked
    · split
      · exact (linked.trans (quiet_activateFrom _ source)).toKeeps
      · exact linked.toKeeps

/-- No suffix comes twice. -/
theorem nodup_suffixes (network : Network) (command : Command.Compiled) :
    (network.suffixes command).Nodup := by
  unfold suffixes
  dsimp only
  split
  · exact List.nodup_singleton _
  · exact Std.ExtTreeSet.distinct_toList.imp fun different same =>
      different (Std.compare_eq_iff_eq.2 same)

end Network

end ConceptLaws.Propagation

namespace ConceptLaws.Command

open Propagation Propagation.Network

/-! ## Calls -/

/-- What can be called for on a network. -/
inductive Call where
  | create (role : Role)
  | createEntity (entity : Entity) (concept : Concept) (precedence : Option Nat)
  | remove (handle : Handle)
  | clear
  | ensure (key : Address)
  | wait (waiter source : Address) (callback : Option Callback)
  | resolve (waiter source : Address)
  | checkResolved (key : Address) (probe : Bool)
  | propagate (key : Address)
  | activate (key : Address)
  | deactivate (key : Address)
  | know (key : Address) (recursive : Bool)
  | block (key : Address)
  | settle
  | bind (variableTable : Handle) (name : String) (target : Address)
  | editField (entity : EntityId) (key : Address) (value : Datum)
  | compileSource (context : Context) (owner : EntityId) (source : String)
  | compileTemplate (context : Context) (owner : EntityId) (template : Template) (swapped : Bool)
  | takeChanged

namespace Call

def perform (network : Network) : Call → Network
  | create role => (network.create role).2
  | createEntity entity concept precedence => (network.createEntity entity concept precedence).2
  | remove handle => (network.remove handle).2
  | clear => network.clear
  | ensure key => network.ensure key
  | wait waiter source callback => (network.wait waiter source callback).2
  | resolve waiter source => (network.resolve waiter source).2
  | checkResolved key probe => (network.checkResolved key probe).2
  | propagate key => network.propagate key
  | activate key => network.activate key
  | deactivate key => (network.deactivate key).2
  | know key recursive => network.know key recursive
  | block key => network.block key
  | settle => network.settle
  | bind variableTable name target => network.bind variableTable name target
  | editField entity key value => network.edit entity key value
  | compileSource context owner source => (Command.compileSource context network owner source).2
  | compileTemplate context owner template swapped =>
    (Command.compileTemplate context network owner template swapped).2
  | takeChanged => network.takeChanged.2

def deeds (network : Network) : Call → List Deed
  | wait waiter source callback => drainDeeds (network.waitOn waiter source callback).2
  | resolve waiter source => network.resolveEdgeDeeds drain drainDeeds waiter source ++
      drainDeeds (network.resolveEdge drain waiter source).2
  | checkResolved key false => network.checkDeeds drain drainDeeds key ++
      drainDeeds (network.check drain key).2
  | checkResolved key true => probeKeyDeeds drain drainDeeds maxCheckDepth ∅ network key ++
      drainDeeds (probeKey drain maxCheckDepth ∅ network key).2
  | propagate key => drainDeeds (network.propagateKey key)
  | activate key => drainDeeds (network.activateFrom key)
  | know key recursive => network.knowDeeds key recursive
  | settle => drainDeeds (network.updateAgenda fun agenda => agenda.pushChecks network.unsettled)
  | bind variableTable name target => network.bindDeeds drainDeeds variableTable name target
  | compileSource context owner source => compileSourceDeeds context owner network source
  | compileTemplate context owner template swapped =>
    compileTemplateDeeds context owner template swapped network
  | _ => []

/-- Every call but clearing does what its deeds tell, and is steady between them. -/
theorem trace_steady {network : Network} (sound : network.trees.Sound) (call : Call)
    (clears : call ≠ .clear) : Trace Steady network (call.deeds network) (call.perform network) := by
  have widen {first last : Network} {deeds : List Deed} (trace : Trace Quiet first deeds last) :=
    trace.mono fun _ _ quiet => quiet.steady
  have drains (start : Network) := trace_drained start.quiet_refl.steady
  cases call with
  | create role => exact trace_changed (quiet_create sound role).steady
  | createEntity entity concept precedence =>
    exact trace_changed (steady_createEntity sound entity concept precedence)
  | remove handle => exact trace_changed (network.steady_remove handle)
  | clear => exact absurd rfl clears
  | ensure key => exact trace_changed (network.quiet_ensure key).steady
  | wait waiter source callback =>
    exact trace_drained (network.quiet_waitOn waiter source callback).steady
  | resolve waiter source =>
    exact (widen (trace_resolveEdge trace_drain network waiter source)).trans (drains _)
  | checkResolved key probe =>
    cases probe with
    | false => exact (widen (tells_check trace_drain network key)).trans (drains _)
    | true =>
      exact (widen (tells_probeKey trace_drain maxCheckDepth ∅ network key)).trans (drains _)
  | propagate key => exact trace_drained (network.quiet_propagateKey key).steady
  | activate key => exact trace_drained (network.quiet_activateFrom key).steady
  | deactivate key => exact trace_changed (network.steady_deactivate key)
  | know key recursive => exact network.trace_know key recursive
  | block key => exact trace_changed (quiet_block network key).steady
  | settle => exact trace_drained (network.quiet_updateAgenda _).steady
  | bind variableTable name target =>
    exact widen (trace_bindVariable trace_drain network variableTable name target)
  | editField entity key value => exact trace_changed (network.steady_edit entity key value)
  | compileSource context owner source =>
    exact widen (trace_compileSource context owner sound source)
  | compileTemplate context owner template swapped =>
    exact widen (trace_compileTemplate context owner template swapped sound)
  | takeChanged =>
    have taken : network.Quiet network.takeChanged.2 := quiet_of_trees rfl rfl rfl
    exact trace_changed taken.steady

theorem trace_keeps {network : Network} (sound : network.trees.Sound) (call : Call) :
    Trace Keeps network (call.deeds network) (call.perform network) := by
  by_cases clears : call = .clear
  · subst clears
    exact trace_of_between fun _ => network.keeps_clear
  · exact (trace_steady sound call clears).mono fun _ _ steady => steady.toKeeps

end Call

/-! ## Calls in a row -/

def performCalls (network : Network) (calls : List Call) : Network :=
  calls.foldl Call.perform network

def callDeeds (network : Network) (calls : List Call) : List Deed :=
  foldDeeds Call.perform Call.deeds network calls

theorem trace_performCalls_of {between : Network → Network → Prop}
    (keeps : ∀ first second, between first second → first.Keeps second) (calls : List Call)
    (each : ∀ call ∈ calls, ∀ {network : Network}, network.trees.Sound →
      Trace between network (call.deeds network) (call.perform network))
    {network : Network} (sound : network.trees.Sound) :
    Trace between network (callDeeds network calls) (performCalls network calls) := by
  induction calls generalizing network with
  | nil => exact .refl network
  | cons first rest ih =>
    have head := each first List.mem_cons_self sound
    exact head.trans (ih (fun call member => each call (List.mem_cons_of_mem first member))
      ((head.keeps keeps sound).sound sound))

theorem trace_performCalls {network : Network} (sound : network.trees.Sound) (calls : List Call) :
    Trace Keeps network (callDeeds network calls) (performCalls network calls) :=
  trace_performCalls_of (fun _ _ => id) calls (fun call _ _ sound => call.trace_keeps sound) sound

theorem trace_performCalls_steady {network : Network} (sound : network.trees.Sound)
    (calls : List Call) (clears : Call.clear ∉ calls) :
    Trace Steady network (callDeeds network calls) (performCalls network calls) :=
  trace_performCalls_of (fun _ _ steady => steady.toKeeps) calls
    (fun call member _ sound => call.trace_steady sound fun same => clears (same ▸ member)) sound

theorem keeps_performCalls {network : Network} (sound : network.trees.Sound) (calls : List Call) :
    network.Keeps (performCalls network calls) :=
  (trace_performCalls sound calls).keeps (fun _ _ => id) sound

theorem performCalls_append (network : Network) (calls more : List Call) :
    performCalls network (calls ++ more) = performCalls (performCalls network calls) more :=
  List.foldl_append

theorem callDeeds_append (network : Network) (calls more : List Call) :
    callDeeds network (calls ++ more) =
      callDeeds network calls ++ callDeeds (performCalls network calls) more :=
  foldDeeds_append network calls more

/-- From an empty network on, whatever is called for: no callback of an edge is run twice and no
command is carried out twice, nor is it evaluated twice for one suffix; until the network is cleared
its counts tell how many there were. To wait on something again adds nothing, and an edge that is
there never gets another callback. -/
theorem effects_once (maxSteps : Nat) (calls : List Call) :
    let deeds := callDeeds (empty maxSteps) calls
    let final := performCalls (empty maxSteps) calls
    (callbacksOf deeds).Nodup ∧ (executionsOf deeds).Nodup ∧
    (∀ network handle command target, .command network handle command target ∈ deeds →
      (network.suffixes command).Nodup) ∧
    (Call.clear ∉ calls → final.counts.callbacks = (callbacksOf deeds).length ∧
      final.counts.commands = (executionsOf deeds).length) ∧
    (∀ earlier later waiter source callback,
      calls = earlier ++ .wait waiter source callback :: later →
      ((performCalls (empty maxSteps) earlier).tree? waiter.tree).isSome →
      ((performCalls (empty maxSteps) earlier).tree? source.tree).isSome →
        final.tree? waiter.tree = none ∨ final.WaitsAlready waiter source) ∧
    ∀ earlier later waiter source edge, calls = earlier ++ later →
      (performCalls (empty maxSteps) earlier).edge? waiter source = some edge →
        final.tree? waiter.tree = none ∨ ∃ after, final.edge? waiter source = some after ∧
          (after.callback = edge.callback ∨ after.callback = none) := by
  intro deeds final
  have start : (empty maxSteps).trees.Sound := Arena.sound_empty
  have ledger := (ledger_empty maxSteps).trace (trace_performCalls start calls) fun _ _ => id
  rw [List.nil_append] at ledger
  have soundAfter (earlier : List Call) : (performCalls (empty maxSteps) earlier).trees.Sound :=
    (keeps_performCalls start earlier).sound start
  refine ⟨ledger.callbacks, ledger.executions, fun network _ command _ _ =>
    network.nodup_suffixes command, fun clears => ?_,
    fun earlier later waiter source callback split waiterLive sourceLive => ?_,
    fun earlier later waiter source edge split held => ?_⟩
  · have counts := (trace_performCalls_steady start calls clears).counts start
    have zero : (empty maxSteps).counts = .zero := rfl
    rw [zero] at counts
    simpa [Counts.zero] using counts
  · obtain ⟨tree, live⟩ := Option.isSome_iff_exists.1 waiterLive
    have joined := joined_waitOn waiterLive sourceLive callback
    have waited := (quiet_waitOn (performCalls (empty maxSteps) earlier) waiter source
      callback).toKeeps
    have drained := (trace_drain ((performCalls (empty maxSteps) earlier).waitOn waiter source
      callback).2).keeps (fun _ _ quiet => quiet.toKeeps) (waited.sound (soundAfter earlier))
    have rest := keeps_performCalls (drained.sound (waited.sound (soundAfter earlier))) later
    have same : performCalls (((performCalls (empty maxSteps) earlier).waitOn waiter source
        callback).2.drain) later = final := by
      change _ = performCalls (empty maxSteps) calls
      rw [split, performCalls_append]
      rfl
    rw [same] at rest
    have issued := waited.issued _ (issued_of_tree? live)
    exact ((drained.trans rest).joined issued joined).imp_right fun ⟨edge, held⟩ =>
      waitsAlready_of_edge? held
  · have rest := keeps_performCalls (soundAfter earlier) later
    rw [← performCalls_append, ← split] at rest
    exact rest.edges waiter source edge held

/-- A key waits on another with a callback and is activated, deactivated, made to wait again and
activated again. -/
def encore : List Call :=
  [.create .plain, .create .plain,
    .wait ⟨⟨0, 0⟩, ["w"]⟩ ⟨⟨1, 0⟩, ["s"]⟩ (some (.bindBlock 0)), .activate ⟨⟨0, 0⟩, ["w"]⟩,
    .deactivate ⟨⟨0, 0⟩, ["w"]⟩, .wait ⟨⟨0, 0⟩, ["w"]⟩ ⟨⟨1, 0⟩, ["s"]⟩ (some .bindTarget),
    .activate ⟨⟨0, 0⟩, ["w"]⟩]

theorem effects_once_encore :
    (callbacksOf (callDeeds (empty 16) encore)).length = 1 ∧
    (performCalls (empty 16) encore).WaitsAlready ⟨⟨0, 0⟩, ["w"]⟩ ⟨⟨1, 0⟩, ["s"]⟩ ∧
    (performCalls (empty 16) encore).edge? ⟨⟨0, 0⟩, ["w"]⟩ ⟨⟨1, 0⟩, ["s"]⟩ = some ⟨true, none⟩ := by
  obtain ⟨-, -, -, counted, waited, -⟩ := effects_once 16 encore
  have states : (performCalls (empty 16) encore).counts.callbacks = 1 ∧
      ((performCalls (empty 16) encore).tree? ⟨0, 0⟩).isSome = true ∧
      (performCalls (empty 16) encore).edge? ⟨⟨0, 0⟩, ["w"]⟩ ⟨⟨1, 0⟩, ["s"]⟩ =
        some ⟨true, none⟩ := by
    simp only [performCalls, encore, List.foldl_cons, List.foldl_nil, Call.perform, activate_eq]
    decide +kernel
  have clears : Call.clear ∉ encore := by simp [encore]
  have again := waited [.create .plain, .create .plain] _ ⟨⟨0, 0⟩, ["w"]⟩ ⟨⟨1, 0⟩, ["s"]⟩ _ rfl
    (by decide +kernel) (by decide +kernel)
  refine ⟨(counted clears).1.symm.trans states.1, again.resolve_left fun gone => ?_, states.2.2⟩
  simp [gone] at states

end ConceptLaws.Command
