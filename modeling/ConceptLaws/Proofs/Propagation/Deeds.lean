import ConceptLaws.Propagation.Cascade
import ConceptLaws.Proofs.Propagation.Keeping

/-! The deeds of a cascade.
Running a callback and carrying out a command are deeds. They are listed in the order in which a
cascade does them, and between two of them the network changes quietly. So whatever a cascade does
is told by its deeds: they make up a trace from the network it starts on to the one it ends on. -/

namespace ConceptLaws.Propagation

/-- What a cascade does besides its bookkeeping. -/
inductive Deed where
  /-- The callback of an edge is run. -/
  | callback (waiter source : Address)
  /-- A command is carried out on a network, where it is marked as executed already. -/
  | command (network : Network) (handle : Handle) (command : Command.Compiled) (target : Address)

namespace Network

/-! ## Lists of deeds -/

/-- The deeds of something done to a network. -/
abbrev Log := Network → List Deed

abbrev KeyLog := Network → Address → List Deed

/-- The deeds of steps taken one after another. -/
def foldDeeds {σ α : Type} (step : σ → α → σ) (deeds : σ → α → List Deed) : σ → List α → List Deed
  | _, [] => []
  | state, first :: rest => deeds state first ++ foldDeeds step deeds (step state first) rest

def satisfyDeeds (network : Network) (waiter source : Address) : List Deed :=
  match network.edge? waiter source with
  | some ⟨false, some _⟩ => [.callback waiter source]
  | _ => []

def bindDeeds (log : Log) (network : Network) (variableTable : Handle) (name : String)
    (target : Address) : List Deed :=
  match (network.tree? variableTable).map Tree.role with
  | some (.variableTable _) => log (network.bindVariable id variableTable name target)
  | _ => []

def markExecuted (network : Network) (handle : Handle) (command : Command.Compiled) : Network :=
  network.setCommand handle { command with executed := true }

def executeDeeds (log : Log) (network : Network) (handle : Handle) : List Deed :=
  match network.command? handle with
  | none => []
  | some command =>
    if command.executed then []
    else match command.target with
      | none => []
      | some target =>
        let marked := network.markExecuted handle command
        .command marked handle command target :: match command.bind with
          | some name =>
            bindDeeds log (marked.carryOut command target) command.variableTable name target
          | none => []

def runKeyDeeds (log : Log) (network : Network) (key : Address) : List Deed :=
  match (network.tree? key.tree).map Tree.role with
  | some (.command _) => if key.path = Path.root then network.executeDeeds log key.tree else []
  | _ => []

def completeDeeds (cascade : Cascade) (log : Log) (network : Network) (key : Address) :
    List Deed :=
  match network.tree? key.tree with
  | none => []
  | some tree =>
    foldDeeds (fun network path => network.runAndPropagate cascade ⟨key.tree, path⟩)
      (fun network path => network.runKeyDeeds log ⟨key.tree, path⟩) network
      ((tree.following key.path).ready ++ [key.path])

def satisfyDoneDeeds (network : Network) (handle : Handle) : List (Path × Address) → List Deed
  | [] => []
  | (path, source) :: rest =>
    if network.isPropagated source then
      network.satisfyDeeds ⟨handle, path⟩ source ++
        (network.satisfy ⟨handle, path⟩ source).2.satisfyDoneDeeds handle rest
    else network.satisfyDoneDeeds handle rest

def probeAllDeeds (probe : Probe) (deeds : KeyLog) (network : Network) (handle : Handle) :
    List (Path × Address) → List Deed
  | [] => []
  | (path, source) :: rest =>
    deeds network source ++
      match probe network source with
      | (false, _) => []
      | (true, network) =>
        network.satisfyDeeds ⟨handle, path⟩ source ++
          probeAllDeeds probe deeds (network.satisfy ⟨handle, path⟩ source).2 handle rest

def settleDeeds (probe : Option (Probe × KeyLog)) (key : Address) : Nat → Network → List Deed
  | 0, _ => []
  | turns + 1, network =>
    match network.standing key with
    | .open edges =>
      network.satisfyDoneDeeds key.tree edges ++
        let (progressed, left, network) := network.satisfyDone key.tree edges
        if left.isEmpty || progressed then settleDeeds probe key turns network
        else match probe with
          | none => []
          | some (ask, deeds) =>
            probeAllDeeds ask deeds network key.tree left ++
              match probeAll ask network key.tree left with
              | (false, _) => []
              | (true, network) => settleDeeds probe key turns network
    | _ => []

def attemptDeeds (cascade : Cascade) (log : Log) (probe : Option (Probe × KeyLog))
    (above : KeyLog) (network : Network) (key : Address) : List Deed :=
  let turns := network.pendingWeight + 1
  settleDeeds probe key turns network ++
    match settleKey (probe.map Prod.fst) key turns network with
    | (.ready, network) =>
      network.completeDeeds cascade log key ++ match key.path.parent? with
        | some parent => above (network.complete cascade key) ⟨key.tree, parent⟩
        | none => []
    | _ => []

def checkUpDeeds (cascade : Cascade) (log : Log) : Nat → KeyLog
  | 0 => attemptDeeds cascade log none fun _ _ => []
  | levels + 1 => attemptDeeds cascade log none (checkUpDeeds cascade log levels)

def checkDeeds (cascade : Cascade) (log : Log) (network : Network) (key : Address) : List Deed :=
  checkUpDeeds cascade log key.path.length network key

def probeKeyDeeds (cascade : Cascade) (log : Log) : Nat → Std.ExtTreeSet Address → KeyLog
  | 0, _ => attemptDeeds cascade log none (checkDeeds cascade log)
  | depth + 1, visiting => fun network key =>
    let probe : Option (Probe × KeyLog) :=
      if visiting.contains key then none
      else some (probeKey cascade depth (visiting.insert key),
        probeKeyDeeds cascade log depth (visiting.insert key))
    attemptDeeds cascade log probe (checkDeeds cascade log) network key

def resolveEdgeDeeds (cascade : Cascade) (log : Log) (network : Network)
    (waiter source : Address) : List Deed :=
  network.satisfyDeeds waiter source ++
    match network.satisfy waiter source with
    | (false, _) => []
    | (true, network) => network.checkDeeds cascade log waiter

def noDeeds : Log := fun _ => []

def handleDeeds (network : Network) : Event → List Deed
  | .resolve waiter source => network.resolveEdgeDeeds id noDeeds waiter source
  | .check key => network.checkDeeds id noDeeds key

def drainStepsDeeds : Nat → Network → List Deed
  | steps, network =>
    match network.agenda.pop? with
    | none => []
    | some (event, agenda) =>
      match steps with
      | 0 => []
      | steps + 1 =>
        let network := { network with agenda }.countEvent
        handleDeeds network event ++ drainStepsDeeds steps (network.handle event)

def drainDeeds : Log := fun network => drainStepsDeeds network.maxSteps network

/-! ## Traces -/

/-- How deeds take one network to another. A callback that is run was held by an open edge, and a
command that is carried out had not been executed. Between the deeds a network whose trees are in
order changes only as `between` says. -/
inductive Trace (between : Network → Network → Prop) : Network → List Deed → Network → Prop
  | refl (network : Network) : Trace between network [] network
  | edit {first second third : Network} {deeds : List Deed}
      (change : first.trees.Sound → between first second)
      (rest : Trace between second deeds third) : Trace between first deeds third
  | callback {first last : Network} {deeds : List Deed} {waiter source : Address}
      {callback : Callback} (held : first.edge? waiter source = some ⟨false, some callback⟩)
      (rest : Trace between (first.satisfy waiter source).2 deeds last) :
      Trace between first (.callback waiter source :: deeds) last
  | command {first last : Network} {deeds : List Deed} {handle : Handle}
      {command : Command.Compiled} {target : Address}
      (found : first.command? handle = some command) (fresh : command.executed = false)
      (aimed : command.target = some target)
      (rest : Trace between ((first.markExecuted handle command).carryOut command target)
        deeds last) :
      Trace between first
        (.command (first.markExecuted handle command) handle command target :: deeds) last

variable {between : Network → Network → Prop} {network later : Network}

theorem Trace.trans {first second third : Network} {deeds more : List Deed}
    (earlier : Trace between first deeds second) (rest : Trace between second more third) :
    Trace between first (deeds ++ more) third := by
  induction earlier with
  | refl => exact rest
  | edit change _ ih => exact .edit change (ih rest)
  | callback held _ ih => exact .callback held (ih rest)
  | command found fresh aimed _ ih => exact .command found fresh aimed (ih rest)

theorem Trace.mono {wider : Network → Network → Prop} {deeds : List Deed}
    (trace : Trace between network deeds later)
    (widen : ∀ first second, between first second → wider first second) :
    Trace wider network deeds later := by
  induction trace with
  | refl => exact .refl _
  | edit change _ ih => exact .edit (widen _ _ ∘ change) ih
  | callback held _ ih => exact .callback held ih
  | command found fresh aimed _ ih => exact .command found fresh aimed ih

theorem trace_of_between (change : network.trees.Sound → between network later) :
    Trace between network [] later :=
  .edit change (.refl later)

theorem trace_quiet (quiet : network.Quiet later) : Trace Quiet network [] later :=
  trace_of_between fun _ => quiet

theorem foldDeeds_map {σ α β : Type} {step : σ → β → σ} {deeds : σ → β → List Deed} (change : α → β)
    (state : σ) (items : List α) : foldDeeds step deeds state (items.map change) =
      foldDeeds (fun state item => step state (change item))
        (fun state item => deeds state (change item)) state items := by
  induction items generalizing state with
  | nil => rfl
  | cons first rest ih => simp [foldDeeds, ih]

theorem foldDeeds_append {σ α : Type} {step : σ → α → σ} {deeds : σ → α → List Deed} (state : σ)
    (items more : List α) : foldDeeds step deeds state (items ++ more) =
      foldDeeds step deeds state items ++ foldDeeds step deeds (items.foldl step state) more := by
  induction items generalizing state with
  | nil => rfl
  | cons first rest ih => simp [foldDeeds, ih]

theorem trace_foldl {σ α : Type} (view : σ → Network) {step : σ → α → σ}
    {deeds : σ → α → List Deed} (items : List α)
    (each : ∀ item ∈ items, ∀ state,
      Trace between (view state) (deeds state item) (view (step state item)))
    (state : σ) :
    Trace between (view state) (foldDeeds step deeds state items)
      (view (items.foldl step state)) := by
  induction items generalizing state with
  | nil => exact .refl _
  | cons first rest ih =>
    exact (each first List.mem_cons_self state).trans
      (ih (fun item member => each item (List.mem_cons_of_mem first member)) _)

/-! ## Satisfying edges -/

theorem satisfy_eq_edge? (network : Network) (waiter source : Address) :
    network.satisfy waiter source = match network.edge? waiter source with
      | none => (false, network)
      | some edge =>
        if edge.satisfied then (false, network)
        else
          let satisfied := network.updateCell waiter fun cell =>
            { cell with waiting := cell.waiting.insert source ⟨true, none⟩ }
          match edge.callback with
          | none => (true, satisfied)
          | some callback =>
            (true, (satisfied.updateCounts fun counts =>
              { counts with callbacks := counts.callbacks + 1 }).bindCommand waiter.tree source
                callback) := rfl

/-- An edge without its callback. -/
theorem holds_satisfied {cell : Cell} {source : Address} :
    cell.Holds { cell with waiting := cell.waiting.insert source ⟨true, none⟩ } := by
  intro other edge held
  by_cases same : other = source
  · subst same
    exact ⟨⟨true, none⟩, by simp, Or.inr rfl⟩
  · refine ⟨edge, ?_, Or.inl rfl⟩
    simp only [Std.ExtTreeMap.getElem?_insert, Std.compare_eq_iff_eq]
    rw [if_neg (Ne.symm same)]
    exact held

theorem quiet_satisfied (network : Network) (waiter source : Address) :
    network.Quiet (network.updateCell waiter fun cell =>
      { cell with waiting := cell.waiting.insert source ⟨true, none⟩ }) :=
  quiet_updateCell (fun _ _ => holds_satisfied) (fun _ _ => id) fun _ _ _ => rfl

/-- Satisfying an edge is quiet but for the callback, which is counted. -/
theorem still_satisfy (network : Network) (waiter source : Address) :
    network.Still (network.satisfy waiter source).2 := by
  have quiet := network.quiet_satisfied waiter source
  rw [satisfy_eq_edge?]
  split
  · exact network.still_refl
  split
  · exact network.still_refl
  dsimp only
  split
  · exact quiet.toStill
  · rename_i callback _
    have counted := quiet.toStill.trans (still_updateCounts _ fun counts =>
      { counts with callbacks := counts.callbacks + 1 })
    exact counted.trans (quiet_bindCommand _ waiter.tree source callback).toStill

theorem trace_satisfy (network : Network) (waiter source : Address) :
    Trace Quiet network (network.satisfyDeeds waiter source) (network.satisfy waiter source).2 := by
  unfold satisfyDeeds
  cases held : network.edge? waiter source with
  | none => simpa [satisfy_eq_edge?, held] using Trace.refl network
  | some edge =>
    obtain ⟨satisfied, callback⟩ := edge
    cases satisfied with
    | true => simpa [satisfy_eq_edge?, held] using Trace.refl network
    | false =>
      cases callback with
      | none =>
        have quiet := trace_quiet (network.quiet_satisfied waiter source)
        simpa [satisfy_eq_edge?, held] using quiet
      | some callback => exact .callback held (.refl _)

theorem trace_satisfyDone (handle : Handle) (edges : List (Path × Address)) (network : Network) :
    Trace Quiet network (network.satisfyDoneDeeds handle edges)
      (network.satisfyDone handle edges).2.2 := by
  induction edges generalizing network with
  | nil => exact .refl network
  | cons first rest ih =>
    unfold satisfyDoneDeeds satisfyDone
    split
    · exact (network.trace_satisfy _ _).trans (ih _)
    · exact ih network

/-! ## Completing keys -/

theorem bindVariable_eq (cascade : Cascade) (network : Network) (variableTable : Handle)
    (name : String) (target : Address) :
    network.bindVariable cascade variableTable name target =
      match (network.tree? variableTable).map Tree.role with
      | some (.variableTable _) => cascade (network.bindVariable id variableTable name target)
      | _ => network := by
  unfold bindVariable
  cases live : network.tree? variableTable with
  | none => rfl
  | some tree =>
    obtain ⟨role, keys⟩ := tree
    cases role with
    | variableTable role =>
      simp [setKnown, ensureWith, variableKey, tree?_updateTree, live]
    | data => rfl
    | command => rfl
    | plain => rfl

theorem trace_bindVariable {cascade : Cascade} {log : Log}
    (runs : ∀ network, Trace Quiet network (log network) (cascade network)) (network : Network)
    (variableTable : Handle) (name : String) (target : Address) :
    Trace Quiet network (network.bindDeeds log variableTable name target)
      (network.bindVariable cascade variableTable name target) := by
  have bound := trace_quiet (network.quiet_bindVariable variableTable name target)
  rw [bindVariable_eq]
  unfold bindDeeds
  split
  · exact bound.trans (runs _)
  · exact .refl network

theorem execute_eq (cascade : Cascade) (network : Network) (handle : Handle) :
    network.execute cascade handle = match network.command? handle with
      | none => network
      | some command =>
        if command.executed then network
        else match command.target with
          | none => network.markExecuted handle command
          | some target => match command.bind with
            | some name => ((network.markExecuted handle command).carryOut command
                target).bindVariable cascade command.variableTable name target
            | none => (network.markExecuted handle command).carryOut command target := by
  unfold execute
  cases network.command? handle with
  | none => rfl
  | some command =>
    cases aimed : command.target with
    | none => simp only [markExecuted, aimed]
    | some target => cases bound : command.bind <;> simp only [markExecuted, aimed, bound]

theorem trace_execute {cascade : Cascade} {log : Log}
    (runs : ∀ network, Trace Quiet network (log network) (cascade network)) (network : Network)
    (handle : Handle) :
    Trace Quiet network (network.executeDeeds log handle) (network.execute cascade handle) := by
  rw [execute_eq]
  unfold executeDeeds
  cases found : network.command? handle with
  | none => exact .refl network
  | some command =>
    dsimp only
    split
    · exact .refl network
    rename_i fresh
    cases aimed : command.target with
    | none => exact trace_quiet (quiet_setCommand found ⟨fun _ => rfl, rfl, rfl⟩)
    | some target =>
      refine .command found (by simpa using fresh) aimed ?_
      cases command.bind with
      | none => exact .refl _
      | some name => exact trace_bindVariable runs _ _ _ target

theorem trace_runKey {cascade : Cascade} {log : Log}
    (runs : ∀ network, Trace Quiet network (log network) (cascade network)) (network : Network)
    (key : Address) :
    Trace Quiet network (network.runKeyDeeds log key) (network.runKey cascade key) := by
  unfold runKeyDeeds runKey
  cases (network.tree? key.tree).map Tree.role with
  | none => exact .refl network
  | some role =>
    cases role with
    | data =>
      dsimp only
      split
      · exact trace_quiet (network.quiet_aggregateSymbol key.tree)
      · exact .refl network
    | variableTable => exact .refl network
    | plain => exact .refl network
    | command =>
      dsimp only
      split
      · exact trace_execute runs network key.tree
      · exact .refl network

theorem quiet_propagateKey (network : Network) (key : Address) :
    network.Quiet (network.propagateKey key) := by
  unfold propagateKey
  split
  · exact network.quiet_refl
  split
  · exact network.quiet_refl
  · have marked : network.Quiet (network.updateCell key fun cell =>
        { cell with propagated := true }) :=
      quiet_updateCell (fun _ _ => Cell.holds_of_waiting rfl) (fun _ _ => id) fun _ _ _ => rfl
    exact marked.trans (quiet_of_trees rfl rfl rfl)

theorem trace_complete {cascade : Cascade} {log : Log}
    (runs : ∀ network, Trace Quiet network (log network) (cascade network)) (network : Network)
    (key : Address) :
    Trace Quiet network (network.completeDeeds cascade log key)
      (network.complete cascade key) := by
  unfold completeDeeds complete
  cases network.tree? key.tree with
  | none => exact .refl network
  | some tree =>
    dsimp only
    have all := trace_foldl id ((tree.following key.path).ready ++ [key.path])
      (fun path _ (network : Network) => (trace_runKey runs network ⟨key.tree, path⟩).trans
        (trace_quiet (quiet_propagateKey (network.runKey cascade ⟨key.tree, path⟩)
          ⟨key.tree, path⟩))) network
    simp only [List.append_nil, id, List.foldl_append, List.foldl_cons, List.foldl_nil] at all
    have told := all.trans (trace_quiet (quiet_updateAgenda _ fun agenda =>
      agenda.pushChecks ((tree.following key.path).deferred.map fun path => ⟨key.tree, path⟩)))
    rwa [List.append_nil] at told

/-! ## What a trace keeps -/

theorem quiet_markExecuted {handle : Handle} {command : Command.Compiled}
    (found : network.command? handle = some command) :
    network.Quiet (network.markExecuted handle command) :=
  quiet_setCommand found ⟨fun _ => rfl, rfl, rfl⟩

theorem retains_command {handle : Handle} {command : Command.Compiled}
    (found : network.command? handle = some command) (target : Address) :
    network.Retains ((network.markExecuted handle command).carryOut command target) :=
  (quiet_markExecuted found).toRetains.trans (retains_carryOut _ command target)

theorem Trace.keeps {deeds : List Deed} (trace : Trace between network deeds later)
    (keeps : ∀ first second, between first second → first.Keeps second)
    (sound : network.trees.Sound) : network.Keeps later := by
  induction trace with
  | refl => exact keeps_refl _
  | edit change _ ih =>
    have edited := keeps _ _ (change sound)
    exact edited.trans (ih (edited.sound sound))
  | @callback first _ _ waiter source _ _ _ ih =>
    have satisfied := (first.still_satisfy waiter source).toKeeps
    exact satisfied.trans (ih (satisfied.sound sound))
  | @command _ _ _ _ _ target found _ _ _ ih =>
    have executed := (retains_command found target).toKeeps
    exact executed.trans (ih (executed.sound sound))

theorem Trace.retains {deeds : List Deed} (trace : Trace Quiet network deeds later)
    (sound : network.trees.Sound) : network.Retains later := by
  induction trace with
  | refl => exact retains_refl _
  | edit change _ ih =>
    have quiet := (change sound).toRetains
    exact quiet.trans (ih (quiet.sound sound))
  | @callback first _ _ waiter source _ _ _ ih =>
    have satisfied := (first.still_satisfy waiter source).toRetains
    exact satisfied.trans (ih (satisfied.sound sound))
  | @command _ _ _ _ _ target found _ _ _ ih =>
    have executed := retains_command found target
    exact executed.trans (ih (executed.sound sound))

/-! ## Checks -/

/-- A check does what its deeds tell. -/
def Tells (probe : Probe) (deeds : KeyLog) : Prop :=
  ∀ network key, Trace Quiet network (deeds network key) (probe network key).2

theorem trace_probeAll {probe : Probe} {deeds : KeyLog} (tells : Tells probe deeds)
    (handle : Handle) (edges : List (Path × Address)) (network : Network) :
    Trace Quiet network (probeAllDeeds probe deeds network handle edges)
      (probeAll probe network handle edges).2 := by
  induction edges generalizing network with
  | nil => exact .refl network
  | cons first rest ih =>
    have asked := tells network first.2
    unfold probeAllDeeds probeAll
    refine asked.trans ?_
    generalize probe network first.2 = outcome
    obtain ⟨succeeded, later⟩ := outcome
    cases succeeded with
    | false => exact .refl later
    | true => exact (later.trace_satisfy _ _).trans (ih _)

theorem trace_settleKey (probe : Option (Probe × KeyLog))
    (tells : ∀ pair ∈ probe, Tells pair.1 pair.2) (key : Address) (turns : Nat)
    (network : Network) :
    Trace Quiet network (settleDeeds probe key turns network)
      (settleKey (probe.map Prod.fst) key turns network).2 := by
  induction turns generalizing network with
  | zero => exact .refl network
  | succ turns ih =>
    unfold settleDeeds settleKey
    cases network.standing key with
    | complete => exact .refl network
    | stuck => exact .refl network
    | ready => exact .refl network
    | «open» edges =>
      have satisfied := trace_satisfyDone key.tree edges network
      dsimp only
      generalize network.satisfyDone key.tree edges = outcome at *
      obtain ⟨progressed, left, later⟩ := outcome
      refine satisfied.trans ?_
      dsimp only
      split
      · exact ih later
      · cases probe with
        | none => exact .refl later
        | some pair =>
          have asked := trace_probeAll (tells pair rfl) key.tree left later
          obtain ⟨ask, deeds⟩ := pair
          simp only [Option.map_some]
          generalize probeAll ask later key.tree left = found at *
          obtain ⟨succeeded, final⟩ := found
          refine asked.trans ?_
          cases succeeded with
          | false => exact .refl final
          | true => exact ih final

theorem tells_attempt {cascade : Cascade} {log : Log}
    (runs : ∀ network, Trace Quiet network (log network) (cascade network))
    (probe : Option (Probe × KeyLog)) (tells : ∀ pair ∈ probe, Tells pair.1 pair.2)
    {above : Network → Address → Network} {aboveDeeds : KeyLog}
    (runsAbove : ∀ network key, Trace Quiet network (aboveDeeds network key) (above network key)) :
    Tells (attempt cascade (probe.map Prod.fst) above)
      (attemptDeeds cascade log probe aboveDeeds) := by
  intro network key
  unfold attemptDeeds attempt
  dsimp only
  have settled := trace_settleKey probe tells key (network.pendingWeight + 1) network
  generalize settleKey (probe.map Prod.fst) key (network.pendingWeight + 1) network = outcome at *
  obtain ⟨answer, later⟩ := outcome
  refine settled.trans ?_
  cases answer with
  | complete => exact .refl later
  | stuck => exact .refl later
  | «open» edges => exact .refl later
  | ready =>
    refine (trace_complete runs later key).trans ?_
    cases key.path.parent? with
    | none => exact .refl _
    | some parent => exact runsAbove _ ⟨key.tree, parent⟩

theorem tells_checkUp {cascade : Cascade} {log : Log}
    (runs : ∀ network, Trace Quiet network (log network) (cascade network)) (levels : Nat) :
    Tells (checkUp cascade levels) (checkUpDeeds cascade log levels) := by
  induction levels with
  | zero => exact tells_attempt runs none (by simp) fun network _ => .refl network
  | succ levels ih => exact tells_attempt runs none (by simp) ih

theorem tells_check {cascade : Cascade} {log : Log}
    (runs : ∀ network, Trace Quiet network (log network) (cascade network)) :
    Tells (fun network => network.check cascade) (checkDeeds cascade log) :=
  fun network key => tells_checkUp runs key.path.length network key

theorem tells_probeKey {cascade : Cascade} {log : Log}
    (runs : ∀ network, Trace Quiet network (log network) (cascade network)) (depth : Nat)
    (visiting : Std.ExtTreeSet Address) :
    Tells (probeKey cascade depth visiting) (probeKeyDeeds cascade log depth visiting) := by
  induction depth generalizing visiting with
  | zero => exact tells_attempt runs none (by simp) (tells_check runs)
  | succ depth ih =>
    intro network key
    unfold probeKey probeKeyDeeds
    dsimp only
    split
    · exact tells_attempt runs none (by simp) (tells_check runs) network key
    · exact tells_attempt runs (some (probeKey cascade depth (visiting.insert key),
        probeKeyDeeds cascade log depth (visiting.insert key)))
        (by rintro pair ⟨⟩; exact ih (visiting.insert key)) (tells_check runs) network key

theorem trace_resolveEdge {cascade : Cascade} {log : Log}
    (runs : ∀ network, Trace Quiet network (log network) (cascade network)) (network : Network)
    (waiter source : Address) :
    Trace Quiet network (network.resolveEdgeDeeds cascade log waiter source)
      (network.resolveEdge cascade waiter source).2 := by
  unfold resolveEdgeDeeds resolveEdge
  refine (network.trace_satisfy waiter source).trans ?_
  generalize network.satisfy waiter source = outcome
  obtain ⟨newly, later⟩ := outcome
  cases newly with
  | false => exact .refl later
  | true => exact tells_check runs later waiter

/-! ## Cascades -/

theorem trace_handle (network : Network) (event : Event) :
    Trace Quiet network (handleDeeds network event) (network.handle event) := by
  cases event with
  | check key => exact tells_check (fun network => .refl network) network key
  | resolve waiter source =>
    exact trace_resolveEdge (fun network => .refl network) network waiter source

theorem trace_drainSteps (steps : Nat) (network : Network) :
    Trace Quiet network (drainStepsDeeds steps network) (network.drainSteps steps) := by
  induction steps generalizing network with
  | zero =>
    unfold drainStepsDeeds drainSteps
    cases network.agenda.pop? with
    | none => exact .refl network
    | some pair => exact trace_quiet (quiet_of_trees rfl rfl rfl)
  | succ steps ih =>
    unfold drainStepsDeeds drainSteps
    cases network.agenda.pop? with
    | none => exact .refl network
    | some pair =>
      obtain ⟨event, agenda⟩ := pair
      have counted : network.Quiet ({ network with agenda } : Network).countEvent :=
        quiet_of_trees rfl rfl rfl
      exact .edit (fun _ => counted) ((trace_handle _ event).trans (ih _))

/-- A cascade does what its deeds tell, and nothing else of note. -/
theorem trace_drain (network : Network) : Trace Quiet network (drainDeeds network) network.drain :=
  trace_drainSteps network.maxSteps network

end Network

end ConceptLaws.Propagation
