import ConceptLaws.Propagation.Cell
import ConceptLaws.Propagation.Tree
import Std.Data.ExtTreeSet

/-! The agenda of a cascade: what is still to be done, first in, first out.
A check that is waiting already is not taken a second time. -/

namespace ConceptLaws.Propagation

inductive Event where
  /-- `source` has propagated, so the edge on which `waiter` waits for it is satisfied. -/
  | resolve (waiter source : Address)
  /-- See whether the key can be completed. -/
  | check (key : Address)
deriving Repr, DecidableEq

/-- `checks` holds the keys of the waiting checks. -/
structure Agenda where
  events : List Event
  checks : Std.ExtTreeSet Address

namespace Agenda

def empty : Agenda := ⟨[], ∅⟩

instance : Inhabited Agenda := ⟨empty⟩

def pushResolve (agenda : Agenda) (waiter source : Address) : Agenda :=
  { agenda with events := agenda.events ++ [.resolve waiter source] }

def pushCheck (agenda : Agenda) (key : Address) : Agenda :=
  if agenda.checks.contains key then agenda
  else ⟨agenda.events ++ [.check key], agenda.checks.insert key⟩

/-- Takes checks in the order of their keys. -/
def pushChecks (agenda : Agenda) (keys : List Address) : Agenda :=
  (keys.mergeSort fun left right => (compare left right).isLE).foldl pushCheck agenda

/-- The event that came first, and the agenda without it. -/
def pop? (agenda : Agenda) : Option (Event × Agenda) :=
  match agenda.events with
  | [] => none
  | .check key :: rest => some (.check key, ⟨rest, agenda.checks.erase key⟩)
  | event :: rest => some (event, { agenda with events := rest })

def size (agenda : Agenda) : Nat := agenda.events.length

def isEmpty (agenda : Agenda) : Bool := agenda.events.isEmpty

end Agenda

end ConceptLaws.Propagation

/-! The network: all live trees, the agenda of the running cascade, and what the cascades did so
far. -/

namespace ConceptLaws.Propagation

structure Counts where
  events : Nat
  callbacks : Nat
  propagated : Nat
  commands : Nat
deriving Repr, DecidableEq

def Counts.zero : Counts := ⟨0, 0, 0, 0⟩

structure Network where
  trees : Arena Tree
  agenda : Agenda
  /-- The number of events that one cascade may handle. -/
  maxSteps : Nat
  counts : Counts
  /-- Entities whose concept data changed since they were last asked for. -/
  changed : Std.ExtTreeSet EntityId

namespace Network

def empty (maxSteps : Nat) : Network := ⟨.empty, .empty, maxSteps, .zero, ∅⟩

instance : Inhabited Network := ⟨empty 0⟩

def tree? (network : Network) (handle : Handle) : Option Tree := network.trees.get? handle

def cell? (network : Network) (key : Address) : Option Cell :=
  network.tree? key.tree >>= fun tree => tree.cell? key.path

def value? (network : Network) (key : Address) : Option Datum :=
  network.cell? key >>= Cell.value

def handles (network : Network) : List Handle := network.trees.handles

def size (network : Network) : Nat := network.trees.liveCount

def create (network : Network) (role : Role) : Handle × Network :=
  let (handle, trees) := network.trees.allocate (.ofRole role)
  (handle, { network with trees })

/-- Removes a tree. Edges that other trees hold to it do nothing from then on. -/
def remove (network : Network) (handle : Handle) : Bool × Network :=
  let (removed, trees) := network.trees.deallocate handle
  (removed.isSome, { network with trees })

/-- Removes all trees and what is on the agenda. -/
def clear (network : Network) : Network :=
  { network with trees := network.trees.clear, agenda := .empty, counts := .zero }

def updateTree (network : Network) (handle : Handle) (change : Tree → Tree) : Network :=
  { network with trees := network.trees.update handle change }

/-- Changes a key, if it is there. -/
def updateCell (network : Network) (key : Address) (change : Cell → Cell) : Network :=
  network.updateTree key.tree fun tree => tree.update key.path change

/-- Adds a key with its ancestors, if its tree is live. -/
def ensure (network : Network) (key : Address) : Network :=
  network.updateTree key.tree fun tree => tree.ensure key.path

/-- Adds a key with its ancestors and changes it. -/
def ensureWith (network : Network) (key : Address) (change : Cell → Cell) : Network :=
  network.updateTree key.tree fun tree => (tree.ensure key.path).update key.path change

def updateAgenda (network : Network) (change : Agenda → Agenda) : Network :=
  { network with agenda := change network.agenda }

def updateCounts (network : Network) (change : Counts → Counts) : Network :=
  { network with counts := change network.counts }

def markChanged (network : Network) (entity : EntityId) : Network :=
  { network with changed := network.changed.insert entity }

/-- Hands out the changed entities and forgets them. -/
def takeChanged (network : Network) : List EntityId × Network :=
  (network.changed.toList, { network with changed := ∅ })

/-- The keys at and below a path that are active but not complete. -/
def pendingKeys (network : Network) (handle : Handle) (top : Path) : List Path :=
  match network.tree? handle with
  | none => []
  | some tree =>
    ((tree.subtree top).filter fun (_, cell) => cell.active && !cell.propagated).map Prod.fst

def isPropagated (network : Network) (key : Address) : Bool :=
  ((network.cell? key).map Cell.propagated).getD false

def isActive (network : Network) (key : Address) : Bool :=
  ((network.cell? key).map Cell.active).getD false

/-- The total of a measure over all trees. -/
def total (measure : Tree → Nat) (network : Network) : Nat :=
  network.trees.entries.foldr (fun (_, tree) sum => measure tree + sum) 0

/-- The number of all edges. -/
def edgeCount (network : Network) : Nat := network.total Tree.edgeCount

/-- The number of active keys. -/
def activeCount (network : Network) : Nat := network.total Tree.activeCount

/-- Satisfying an edge lowers this weight, also when its callback adds one. -/
def pendingWeight (network : Network) : Nat := network.total Tree.pendingWeight

/-- The commands, by handle. -/
def commands (network : Network) : List (Handle × Command.Compiled) :=
  network.trees.entries.filterMap fun (handle, tree) =>
    match tree.role with
    | .command command => some (handle, command)
    | _ => none

end Network

end ConceptLaws.Propagation
