import ConceptLaws.Proofs.Propagation.Deeds
import Mathlib.Data.List.Nodup

/-! The ledger of deeds.
A callback that was run is gone from its edge, and a command that was carried out is marked as
executed. Trees that are gone never come back. So no trace ever repeats a deed, and the counts of a
network tell how many there were. -/

namespace ConceptLaws.Propagation

/-- The edges whose callbacks are run, as pairs of waiter and source. -/
def callbacksOf (deeds : List Deed) : List (Address × Address) :=
  deeds.filterMap fun
    | .callback waiter source => some (waiter, source)
    | .command .. => none

/-- The commands that are carried out. -/
def executionsOf (deeds : List Deed) : List Handle :=
  deeds.filterMap fun
    | .callback .. => none
    | .command _ handle _ _ => some handle

theorem callbacksOf_append (deeds more : List Deed) :
    callbacksOf (deeds ++ more) = callbacksOf deeds ++ callbacksOf more :=
  List.filterMap_append ..

theorem executionsOf_append (deeds more : List Deed) :
    executionsOf (deeds ++ more) = executionsOf deeds ++ executionsOf more :=
  List.filterMap_append ..

namespace Network

variable {between : Network → Network → Prop} {network later : Network}

/-- An edge that has no callback, of a tree that may be gone. -/
def Disarmed (network : Network) (waiter source : Address) : Prop :=
  network.tree? waiter.tree = none ∨
    ∃ edge, network.edge? waiter source = some edge ∧ edge.callback = none

/-- A command that has been executed, of a tree that may be gone. -/
def Done (network : Network) (handle : Handle) : Prop :=
  network.tree? handle = none ∨
    ∃ command, network.command? handle = some command ∧ command.executed = true

/-- Deeds of the past, none of them done twice and none to be done again. -/
structure Ledger (network : Network) (past : List Deed) : Prop where
  sound : network.trees.Sound
  callbacks : (callbacksOf past).Nodup
  executions : (executionsOf past).Nodup
  disarmed : ∀ edge ∈ callbacksOf past,
    network.trees.Issued edge.1.tree ∧ network.Disarmed edge.1 edge.2
  done : ∀ handle ∈ executionsOf past, network.trees.Issued handle ∧ network.Done handle

theorem ledger_empty (maxSteps : Nat) : (empty maxSteps).Ledger [] :=
  ⟨Arena.sound_empty, List.nodup_nil, List.nodup_nil, by simp [callbacksOf],
    by simp [executionsOf]⟩

theorem Keeps.disarmed (keeps : network.Keeps later) {waiter source : Address}
    (issued : network.trees.Issued waiter.tree) (disarmed : network.Disarmed waiter source) :
    later.Disarmed waiter source := by
  rcases disarmed with gone | ⟨edge, held, bare⟩
  · exact Or.inl (keeps.stale _ issued gone)
  · refine (keeps.edges waiter source edge held).imp_right ?_
    rintro ⟨after, heldAfter, less⟩
    exact ⟨after, heldAfter, less.elim (fun same => same.trans bare) id⟩

theorem Keeps.done (keeps : network.Keeps later) {handle : Handle}
    (issued : network.trees.Issued handle) (done : network.Done handle) : later.Done handle := by
  rcases done with gone | ⟨command, found, executed⟩
  · exact Or.inl (keeps.stale _ issued gone)
  · refine (keeps.commands handle command found).imp_right ?_
    rintro ⟨after, foundAfter, still⟩
    exact ⟨after, foundAfter, still.executed executed⟩

theorem Ledger.keep {past : List Deed} (ledger : network.Ledger past)
    (keeps : network.Keeps later) : later.Ledger past where
  sound := keeps.sound ledger.sound
  callbacks := ledger.callbacks
  executions := ledger.executions
  disarmed edge member :=
    have ⟨issued, disarmed⟩ := ledger.disarmed edge member
    ⟨keeps.issued _ issued, keeps.disarmed issued disarmed⟩
  done handle member :=
    have ⟨issued, done⟩ := ledger.done handle member
    ⟨keeps.issued _ issued, keeps.done issued done⟩

/-- Satisfying an edge takes its callback. -/
theorem disarmed_satisfy {waiter source : Address} {edge : Edge}
    (held : network.edge? waiter source = some edge) (waits : edge.satisfied = false) :
    (network.satisfy waiter source).2.Disarmed waiter source := by
  have issued : (network.updateCell waiter fun cell =>
      { cell with waiting := cell.waiting.insert source ⟨true, none⟩ }).trees.Issued waiter.tree :=
    have ⟨_, live⟩ := tree?_of_edge? held
    (network.quiet_satisfied waiter source).issued _ (issued_of_tree? live)
  have taken : (network.updateCell waiter fun cell =>
      { cell with waiting := cell.waiting.insert source ⟨true, none⟩ }).Disarmed waiter source := by
    obtain ⟨cell, found, -⟩ := edge?_eq_some_iff.1 held
    refine Or.inr ⟨⟨true, none⟩, edge?_eq_some_iff.2
      ⟨{ cell with waiting := cell.waiting.insert source ⟨true, none⟩ }, ?_, by simp⟩, rfl⟩
    rw [cell?_updateCell, if_pos rfl, found]
    rfl
  rw [satisfy_eq_edge?, held]
  dsimp only
  rw [waits]
  cases edge.callback with
  | none => exact taken
  | some callback =>
    have counted := still_updateCounts (network.updateCell waiter fun cell =>
        { cell with waiting := cell.waiting.insert source ⟨true, none⟩ }) fun counts =>
      { counts with callbacks := counts.callbacks + 1 }
    have bound := counted.toKeeps.trans
      (quiet_bindCommand _ waiter.tree source callback).toKeeps
    exact bound.disarmed issued taken

theorem done_command {handle : Handle} {command : Command.Compiled}
    (found : network.command? handle = some command) (target : Address) :
    ((network.markExecuted handle command).carryOut command target).Done handle := by
  obtain ⟨tree, live, -⟩ := command?_eq_some_iff.1 found
  have marked : (network.markExecuted handle command).Done handle := by
    refine Or.inr ⟨{ command with executed := true }, command?_eq_some_iff.2
      ⟨{ tree with role := .command { command with executed := true } }, ?_, rfl⟩, rfl⟩
    unfold markExecuted setCommand
    rw [tree?_updateTree, if_pos rfl, live]
    rfl
  have issued := (quiet_markExecuted found).issued _ (issued_of_tree? live)
  exact (retains_carryOut _ command target).done issued marked

/-- An edge that has its callback still stands in no ledger. -/
theorem Ledger.callback {past : List Deed} (ledger : network.Ledger past)
    {waiter source : Address} {callback : Callback}
    (held : network.edge? waiter source = some ⟨false, some callback⟩) :
    (network.satisfy waiter source).2.Ledger (past ++ [.callback waiter source]) := by
  obtain ⟨tree, live⟩ := tree?_of_edge? held
  have new : (waiter, source) ∉ callbacksOf past := by
    intro member
    rcases (ledger.disarmed _ member).2 with gone | ⟨other, heldOther, bare⟩
    · simp [live] at gone
    · simp [Option.some.inj (held.symm.trans heldOther).symm] at bare
  have satisfied := (network.still_satisfy waiter source).toKeeps
  have kept := ledger.keep satisfied
  refine ⟨kept.sound, ?_, ?_, fun edge member => ?_, fun handle member => ?_⟩
  · rw [callbacksOf_append]
    exact List.nodup_append_comm.2 (List.nodup_cons.2 ⟨new, ledger.callbacks⟩)
  · rw [executionsOf_append]
    simpa [executionsOf] using ledger.executions
  · rw [callbacksOf_append] at member
    rcases List.mem_append.1 member with old | single
    · exact kept.disarmed edge old
    · obtain rfl := List.mem_singleton.1 single
      exact ⟨satisfied.issued _ (issued_of_tree? live), disarmed_satisfy held rfl⟩
  · rw [executionsOf_append] at member
    exact kept.done handle (by simpa [executionsOf] using member)

/-- A command that has not been executed stands in no ledger. -/
theorem Ledger.command {past : List Deed} (ledger : network.Ledger past) {handle : Handle}
    {command : Command.Compiled} (found : network.command? handle = some command)
    (fresh : command.executed = false) (target : Address) :
    ((network.markExecuted handle command).carryOut command target).Ledger
      (past ++ [.command (network.markExecuted handle command) handle command target]) := by
  obtain ⟨tree, live, -⟩ := command?_eq_some_iff.1 found
  have new : handle ∉ executionsOf past := by
    intro member
    rcases (ledger.done _ member).2 with gone | ⟨other, foundOther, executed⟩
    · simp [live] at gone
    · obtain rfl := Option.some.inj (found.symm.trans foundOther)
      simp [fresh] at executed
  have executed := (retains_command found target).toKeeps
  have kept := ledger.keep executed
  refine ⟨kept.sound, ?_, ?_, fun edge member => ?_, fun query member => ?_⟩
  · rw [callbacksOf_append]
    simpa [callbacksOf] using ledger.callbacks
  · rw [executionsOf_append]
    exact List.nodup_append_comm.2 (List.nodup_cons.2 ⟨new, ledger.executions⟩)
  · rw [callbacksOf_append] at member
    exact kept.disarmed edge (by simpa [callbacksOf] using member)
  · rw [executionsOf_append] at member
    rcases List.mem_append.1 member with old | single
    · exact kept.done query old
    · obtain rfl := List.mem_singleton.1 single
      exact ⟨executed.issued _ (issued_of_tree? live), done_command found target⟩

/-- A trace adds its deeds to the ledger. -/
theorem Ledger.trace {deeds past : List Deed} (ledger : network.Ledger past)
    (trace : Trace between network deeds later)
    (keeps : ∀ first second, between first second → first.Keeps second) :
    later.Ledger (past ++ deeds) := by
  induction trace generalizing past with
  | refl => rwa [List.append_nil]
  | edit change _ ih => exact ih (ledger.keep (keeps _ _ (change ledger.sound)))
  | callback held _ ih =>
    have extended := ih (ledger.callback held)
    rwa [List.append_assoc] at extended
  | @command _ _ _ _ _ target found fresh _ _ ih =>
    have extended := ih (ledger.command found fresh target)
    rwa [List.append_assoc] at extended

/-! ## Counts -/

theorem counts_dropValue (network : Network) (key : Address) :
    (network.dropValue key).counts = network.counts := rfl

theorem counts_eraseLeaf (handle : Handle) (network : Network) (path : Path) :
    (eraseLeaf handle network path).counts = network.counts := rfl

theorem counts_foldl {α : Type} {step : Network → α → Network}
    (each : ∀ (network : Network) item, (step network item).counts = network.counts)
    (items : List α) (network : Network) :
    (items.foldl step network).counts = network.counts := by
  induction items generalizing network with
  | nil => rfl
  | cons first rest ih => exact (ih _).trans (each network first)

theorem counts_noteChange (network : Network) (key : Address) :
    (network.noteChange key).counts = network.counts := by
  unfold noteChange
  split <;> rfl

theorem counts_write (network : Network) (key : Address) (value : Datum) :
    (network.write key value).2.counts = network.counts := by
  unfold write
  split
  · rfl
  split
  · rfl
  · exact counts_noteChange _ key

theorem counts_clearKey (network : Network) (key : Address) :
    (network.clearKey key).counts = network.counts := by
  unfold clearKey
  split
  · rfl
  · have dropped := counts_foldl fun (network : Network) path =>
      network.counts_dropValue ⟨key.tree, path⟩
    exact (counts_foldl (counts_eraseLeaf key.tree) _ _).trans (dropped _ _)

theorem counts_applyAction (network : Network) (action : Command.Action) (key : Address)
    (value : Datum) : (network.applyAction action key value).counts = network.counts := by
  have accumulated (operation : Arithmetic.Operator) :
      (network.accumulate operation key value).counts = network.counts := by
    unfold accumulate
    split
    · exact counts_write network key value
    split
    · exact counts_write network key _
    · rfl
  cases action with
  | assign => exact counts_write network key value
  | increase => exact accumulated .plus
  | decrease => exact accumulated .minus
  | scale => exact accumulated .times
  | addChild =>
    simp only [applyAction, appendChild]
    split
    · rfl
    · exact counts_write network _ value
  | addValue =>
    simp only [applyAction, appendValue]
    split <;> exact counts_write network key _
  | clear => exact counts_clearKey network key

theorem counts_carryOut (network : Network) (command : Command.Compiled) (target : Address) :
    (network.carryOut command target).counts =
      { network.counts with commands := network.counts.commands + 1 } := by
  unfold carryOut
  dsimp only
  split
  · exact counts_clearKey _ target
  · refine counts_foldl (fun network result => ?_) _ _
    obtain ⟨suffix, outcome⟩ := result
    cases outcome with
    | ok value => exact counts_applyAction network _ _ value
    | error => rfl

/-- Nothing is called back and no command is executed, but data may change. -/
structure Steady (network later : Network) : Prop extends network.Keeps later where
  callbacks : later.counts.callbacks = network.counts.callbacks
  executions : later.counts.commands = network.counts.commands

theorem Quiet.steady (quiet : network.Quiet later) : network.Steady later :=
  ⟨quiet.toKeeps, quiet.callbacks, quiet.executions⟩

theorem Steady.trans {first second third : Network} (earlier : first.Steady second)
    (later : second.Steady third) : first.Steady third :=
  ⟨earlier.toKeeps.trans later.toKeeps, later.callbacks.trans earlier.callbacks,
    later.executions.trans earlier.executions⟩

/-- The counts of a network tell how many deeds there were. -/
theorem Trace.counts {deeds : List Deed} (trace : Trace Steady network deeds later)
    (sound : network.trees.Sound) :
    later.counts.callbacks = network.counts.callbacks + (callbacksOf deeds).length ∧
      later.counts.commands = network.counts.commands + (executionsOf deeds).length := by
  induction trace with
  | refl => exact ⟨rfl, rfl⟩
  | edit change _ ih =>
    have steady := change sound
    rw [← steady.callbacks, ← steady.executions]
    exact ih (steady.sound sound)
  | @callback first _ _ waiter source callback held _ ih =>
    obtain ⟨callbacks, executions⟩ := ih ((first.still_satisfy waiter source).sound sound)
    have called : (first.satisfy waiter source).2.counts.callbacks = first.counts.callbacks + 1 ∧
        (first.satisfy waiter source).2.counts.commands = first.counts.commands := by
      rw [satisfy_eq_edge?, held]
      have bound := quiet_bindCommand ((first.updateCell waiter fun cell =>
        { cell with waiting := cell.waiting.insert source ⟨true, none⟩ }).updateCounts fun counts =>
          { counts with callbacks := counts.callbacks + 1 }) waiter.tree source callback
      exact ⟨bound.callbacks, bound.executions⟩
    rw [callbacks, executions, called.1, called.2]
    simp only [callbacksOf, executionsOf, List.filterMap_cons, List.length_cons, and_true]
    omega
  | @command first _ _ _ command target found _ _ _ ih =>
    obtain ⟨callbacks, executions⟩ := ih ((retains_command found target).sound sound)
    rw [callbacks, executions, counts_carryOut, (quiet_markExecuted found).callbacks,
      (quiet_markExecuted found).executions]
    simp only [callbacksOf, executionsOf, List.filterMap_cons, List.length_cons, true_and]
    omega

end Network

end ConceptLaws.Propagation
