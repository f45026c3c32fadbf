import ConceptLaws.Propagation.Network

/-! Activation.
Activating a key activates its sub-tree and everything the sub-tree waits on, directly or through
others. A key that others still wait on is not deactivated. -/

namespace ConceptLaws.Propagation.Network

/-- A walk over keys still to be activated; `found` are the keys that were not active before. -/
structure ActivationWalk where
  network : Network
  stack : List Address
  seen : Std.ExtTreeSet Address
  found : List Address

/-- Activates one key of the sub-tree of `handle` and puts what it waits on upon the stack. -/
def activateKey (handle : Handle) (walk : ActivationWalk) (entry : Path × Cell) :
    ActivationWalk :=
  let key : Address := ⟨handle, entry.1⟩
  { walk with
    network :=
      if entry.2.active then walk.network
      else walk.network.updateCell key fun cell => { cell with active := true }
    stack := entry.2.waiting.keys.reverse ++ walk.stack
    found := if entry.2.active then walk.found else walk.found ++ [key] }

/-- Activates a key and its sub-tree. -/
def activateSubtree (walk : ActivationWalk) (key : Address) : ActivationWalk :=
  let network := walk.network.ensure key
  match network.tree? key.tree with
  | none => walk
  | some tree => (tree.subtree key.path).foldl (activateKey key.tree) { walk with network }

/-- Takes keys off the stack until it is empty. A key is walked once, and every key but the first is
the source of an edge, so one turn more than there are edges is enough. -/
def walkActivation : Nat → ActivationWalk → ActivationWalk
  | 0, walk => walk
  | turns + 1, walk =>
    match walk.stack.dropWhile walk.seen.contains with
    | [] => walk
    | key :: rest =>
      walkActivation turns
        (activateSubtree { walk with stack := rest, seen := walk.seen.insert key } key)

/-- Activates a key with all it depends on, and puts the newly active keys on the agenda. -/
def activateFrom (network : Network) (key : Address) : Network :=
  let walk := walkActivation (network.edgeCount + 1) ⟨network, [key], ∅, []⟩
  walk.network.updateAgenda fun agenda => agenda.pushChecks walk.found

/-- Whether an active key outside a sub-tree waits on a key of it. -/
def isNeeded (network : Network) (key : Address) (cells : List (Path × Cell)) : Bool :=
  cells.any fun (_, cell) => cell.triggers.toList.any fun waiter =>
    !(waiter.tree == key.tree && waiter.path.isWithin key.path) && network.isActive waiter

/-- Forgets that a key was active and what was done for it. -/
def Cell.deactivated (cell : Cell) : Cell :=
  { cell with
    active := false
    propagated := false
    waiting := cell.waiting.map fun _ edge => { edge with satisfied := false } }

/-- Deactivates a sub-tree and then what it waited on, as far as nothing else needs that. Every
level deactivates a key, so the number of active keys bounds the depth. -/
def deactivateWithin : Nat → Network → Address → Bool × Network
  | 0, network, _ => (false, network)
  | depth + 1, network, key =>
    match network.tree? key.tree with
    | none => (false, network)
    | some tree =>
      match tree.cell? key.path with
      | none => (false, network)
      | some cell =>
        if !cell.active then (true, network)
        else
          let subtree := tree.subtree key.path
          if network.isNeeded key subtree then (false, network)
          else
            let sources : Std.ExtTreeSet Address :=
              subtree.foldl (fun sources (_, cell) => sources.insertMany cell.waiting.keys) ∅
            let lowered := subtree.foldl (fun network (path, _) =>
              network.updateCell ⟨key.tree, path⟩ Cell.deactivated) network
            (true, sources.toList.foldl (fun network source =>
              (deactivateWithin depth network source).2) lowered)

/-- Deactivates a key; refused while an active key outside its sub-tree waits on it. -/
def deactivate (network : Network) (key : Address) : Bool × Network :=
  network.deactivateWithin (network.activeCount + 1) key

/-- Adds the edge to a waiting key, which becomes active under an active parent. -/
def addEdge (network : Network) (waiter source : Address) (callback : Option Callback) : Network :=
  network.updateCell waiter fun cell =>
    { cell with waiting := cell.waiting.insert source ⟨false, callback⟩ }

/-- Adds the waiting key; below an active parent it is active as well. -/
def prepareWaiter (network : Network) (waiter : Address) : Network :=
  let parentActive :=
    ((waiter.path.parent?.map fun parent => network.isActive ⟨waiter.tree, parent⟩)).getD false
  network.ensureWith waiter fun cell => { cell with active := cell.active || parentActive }

/-- Makes `waiter` wait on `source`, without running the cascade. An edge that is there already is
left alone. An active waiter activates its source, and a source that has propagated puts the edge on
the agenda. -/
def waitOn (network : Network) (waiter source : Address) (callback : Option Callback) :
    Bool × Network :=
  if (network.tree? waiter.tree).isNone || (network.tree? source.tree).isNone then (false, network)
  else
    let network := network.prepareWaiter waiter
    if ((network.cell? waiter).map fun cell => cell.waiting.contains source).getD false then
      (false, network)
    else
      let network := network.addEdge waiter source callback
      let waiterActive := network.isActive waiter
      let network := network.ensureWith source fun cell =>
        { cell with triggers := cell.triggers.insert waiter }
      let sourcePropagated := network.isPropagated source
      let network := if waiterActive then network.activateFrom source else network
      (true, if sourcePropagated then
        network.updateAgenda fun agenda => agenda.pushResolve waiter source
      else network)

end ConceptLaws.Propagation.Network
