import ConceptLaws.Propagation.Execution

/-! The cascade.
A key that is active and not blocked is completed when it is known, or when no edge at or below it
is open. Completing a key completes what is ready below it, runs what belongs to the key, tells the
keys that wait on it, and looks at the key above. The agenda holds what is told; a cascade works it
off. -/

namespace ConceptLaws.Propagation.Network

/-- Satisfies an edge and runs its callback, once. -/
def satisfy (network : Network) (waiter source : Address) : Bool × Network :=
  match network.cell? waiter >>= fun cell => cell.waiting[source]? with
  | none => (false, network)
  | some edge =>
    if edge.satisfied then (false, network)
    else
      let network := network.updateCell waiter fun cell =>
        { cell with waiting := cell.waiting.insert source ⟨true, none⟩ }
      match edge.callback with
      | none => (true, network)
      | some callback =>
        let network := network.updateCounts fun counts =>
          { counts with callbacks := counts.callbacks + 1 }
        (true, network.bindCommand waiter.tree source callback)

/-- Marks a key complete and puts the keys that wait on it on the agenda. -/
def propagateKey (network : Network) (key : Address) : Network :=
  match network.cell? key with
  | none => network
  | some cell =>
    if cell.propagated then network
    else
      let network := network.updateCell key fun cell => { cell with propagated := true }
      let network := network.updateCounts fun counts =>
        { counts with propagated := counts.propagated + 1 }
      network.updateAgenda fun agenda =>
        cell.triggers.toList.foldl (fun agenda waiter => agenda.pushResolve waiter key) agenda

/-- Runs what belongs to a key: the symbol of a data tree is put together, and the root of a command
executes it. -/
def runKey (cascade : Cascade) (network : Network) (key : Address) : Network :=
  match (network.tree? key.tree).map Tree.role with
  | some (.data _) => if key.path = symbolPath then network.aggregateSymbol key.tree else network
  | some (.command _) =>
    if key.path = Path.root then network.execute cascade key.tree else network
  | _ => network

def runAndPropagate (cascade : Cascade) (network : Network) (key : Address) : Network :=
  (network.runKey cascade key).propagateKey key

/-- Completes a key after what is ready below it; what has to wait there is checked later. -/
def complete (cascade : Cascade) (network : Network) (key : Address) : Network :=
  match network.tree? key.tree with
  | none => network
  | some tree =>
    let following := tree.following key.path
    let network := following.ready.foldl
      (fun network path => network.runAndPropagate cascade ⟨key.tree, path⟩) network
    (network.runAndPropagate cascade key).updateAgenda fun agenda =>
      agenda.pushChecks (following.deferred.map fun path => ⟨key.tree, path⟩)

/-- What a look at a key says: it is complete, it cannot be completed now, it can be, or it waits on
the open edges listed. -/
inductive Standing where
  | complete
  | stuck
  | ready
  | open (edges : List (Path × Address))

/-- Looks at a key. A variable is completed only once it is known. -/
def standing (network : Network) (key : Address) : Standing :=
  match network.tree? key.tree with
  | none => .stuck
  | some tree =>
    match tree.cell? key.path with
    | none => .stuck
    | some cell =>
      if cell.propagated then .complete
      else if !cell.active || cell.blocked then .stuck
      else if cell.known then .ready
      else if tree.role.isVariables then .stuck
      else match tree.pending? key.path with
        | none => .stuck
        | some [] => .ready
        | some edges => .open edges

/-- Satisfies the edges whose sources have propagated; tells whether one was newly satisfied, and
the edges left. -/
def satisfyDone (network : Network) (handle : Handle) :
    List (Path × Address) → Bool × List (Path × Address) × Network
  | [] => (false, [], network)
  | (path, source) :: rest =>
    if network.isPropagated source then
      let (newly, network) := network.satisfy ⟨handle, path⟩ source
      let (later, left, network) := network.satisfyDone handle rest
      (newly || later, left, network)
    else
      let (later, left, network) := network.satisfyDone handle rest
      (later, (path, source) :: left, network)

/-- Checks a source on demand. -/
abbrev Probe := Network → Address → Bool × Network

/-- Checks the sources of open edges one by one and satisfies the edges, until a source fails. -/
def probeAll (probe : Probe) (network : Network) (handle : Handle) :
    List (Path × Address) → Bool × Network
  | [] => (true, network)
  | (path, source) :: rest =>
    match probe network source with
    | (false, network) => (false, network)
    | (true, network) =>
      probeAll probe (network.satisfy ⟨handle, path⟩ source).2 handle rest

/-- Works on the open edges of a key until it is ready or can get no further; without a probe it
waits for sources that have not propagated. Each turn but the last satisfies an edge, which lowers
the pending weight of the network. -/
def settleKey (probe : Option Probe) (key : Address) : Nat → Network → Standing × Network
  | 0, network => (.stuck, network)
  | turns + 1, network =>
    match network.standing key with
    | .open edges =>
      let (progressed, left, network) := network.satisfyDone key.tree edges
      if left.isEmpty || progressed then settleKey probe key turns network
      else match probe with
        | none => (.stuck, network)
        | some probe =>
          match probeAll probe network key.tree left with
          | (false, network) => (.stuck, network)
          | (true, network) => settleKey (some probe) key turns network
    | standing => (standing, network)

/-- Settles a key, and completes it if it is ready; `above` then looks at the key above. -/
def attempt (cascade : Cascade) (probe : Option Probe) (above : Network → Address → Network)
    (network : Network) (key : Address) : Bool × Network :=
  match settleKey probe key (network.pendingWeight + 1) network with
  | (.complete, network) => (true, network)
  | (.ready, network) =>
    let network := network.complete cascade key
    (true, match key.path.parent? with
      | some parent => above network ⟨key.tree, parent⟩
      | none => network)
  | (_, network) => (false, network)

/-- Checks a key without a probe; `levels` is the number of keys above it. -/
def checkUp (cascade : Cascade) : Nat → Network → Address → Bool × Network
  | 0 => attempt cascade none fun network _ => network
  | levels + 1 => attempt cascade none fun network above =>
    (checkUp cascade levels network above).2

/-- Completes a key if nothing is open at or below it, and then the keys above. -/
def check (cascade : Cascade) (network : Network) (key : Address) : Bool × Network :=
  checkUp cascade key.path.length network key

/-- Checks a key and, on demand, the sources of its open edges. `visiting` are the keys whose check
led here; a key met again, and a chain longer than `depth`, fail. -/
def probeKey (cascade : Cascade) : Nat → Std.ExtTreeSet Address → Network → Address → Bool × Network
  | 0, _ => attempt cascade none fun network above => (network.check cascade above).2
  | depth + 1, visiting => fun network key =>
    let probe : Option Probe :=
      if visiting.contains key then none
      else some (probeKey cascade depth (visiting.insert key))
    attempt cascade probe (fun network above => (network.check cascade above).2) network key

/-- The longest chain of sources that is followed on demand. -/
def maxCheckDepth : Nat := 256

/-- Satisfies an edge and checks the key that waited. -/
def resolveEdge (cascade : Cascade) (network : Network) (waiter source : Address) :
    Bool × Network :=
  match network.satisfy waiter source with
  | (false, network) => (false, network)
  | (true, network) => (true, (network.check cascade waiter).2)

/-- Handles an event of a running cascade, which takes up by itself whatever is put on the agenda.
-/
def handle (network : Network) : Event → Network
  | .resolve waiter source => (network.resolveEdge id waiter source).2
  | .check key => (network.check id key).2

def countEvent (network : Network) : Network :=
  network.updateCounts fun counts => { counts with events := counts.events + 1 }

/-- Handles at most `steps` events. One event more is counted and then everything is dropped. -/
def drainSteps : Nat → Network → Network
  | steps, network =>
    match network.agenda.pop? with
    | none => network
    | some (event, agenda) =>
      let network := { network with agenda }.countEvent
      match steps with
      | 0 => { network with agenda := .empty }
      | steps + 1 => drainSteps steps (network.handle event)

/-- Runs the cascade. -/
def drain (network : Network) : Network := network.drainSteps network.maxSteps

/-- Makes `waiter` wait on `source`; tells whether the edge is new. -/
def wait (network : Network) (waiter source : Address) (callback : Option Callback) :
    Bool × Network :=
  let (added, network) := network.waitOn waiter source callback
  (added, network.drain)

/-- Satisfies an edge; tells whether it was open. -/
def resolve (network : Network) (waiter source : Address) : Bool × Network :=
  let (newly, network) := network.resolveEdge drain waiter source
  (newly, network.drain)

/-- Checks a key, with `probe` also the sources it waits on. -/
def checkResolved (network : Network) (key : Address) (probe : Bool) : Bool × Network :=
  let (resolved, network) :=
    if probe then probeKey drain maxCheckDepth ∅ network key else network.check drain key
  (resolved, network.drain)

def propagate (network : Network) (key : Address) : Network := (network.propagateKey key).drain

/-- Activates a key with all it depends on. -/
def activate (network : Network) (key : Address) : Network := (network.activateFrom key).drain

def know (network : Network) (key : Address) (recursive : Bool) : Network :=
  network.setKnown drain key recursive

/-- Bars a key from ever being completed. -/
def block (network : Network) (key : Address) : Network :=
  network.ensureWith key fun cell => { cell with blocked := true }

/-- The active keys that are not complete. -/
def unsettled (network : Network) : List Address :=
  network.trees.entries.flatMap fun (handle, tree) =>
    (tree.keys.toList.filter fun (_, cell) => cell.active && !cell.propagated).map
      fun (path, _) => ⟨handle, path⟩

/-- Checks every active key that is not complete. -/
def settle (network : Network) : Network :=
  (network.updateAgenda fun agenda => agenda.pushChecks network.unsettled).drain

def bind (network : Network) (variableTable : Handle) (name : String) (target : Address) :
    Network :=
  network.bindVariable drain variableTable name target

end ConceptLaws.Propagation.Network
