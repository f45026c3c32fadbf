import ConceptLaws.Propagation.DataTree
import ConceptLaws.Report.Value

/-! Reports of networks: keys with their state and edges, and the roles of trees. -/

namespace ConceptLaws.Report

open Propagation

def path (value : Path) : Json := .string value.display

/-- The index and the generation of a handle. -/
def handleText (value : Handle) : String :=
  toString value.index ++ "." ++ toString value.generation

def handle (value : Handle) : Json := .string (handleText value)

def address (value : Address) : Json :=
  .string (handleText value.tree ++ "/" ++ value.path.display)

def callback : Callback → Json
  | .bindTarget => .string "target"
  | .bindBlock place => .natural place

/-- A letter each for an active, known, propagated and locked key. -/
def flags (cell : Cell) : String :=
  String.join [if cell.active then "a" else "", if cell.known then "k" else "",
    if cell.propagated then "p" else "", if cell.locked then "l" else ""]

def presentDatum (name : String) : Option Datum → List (String × Json)
  | some value => [(name, datum value)]
  | none => []

def waitingEdges (cell : Cell) : List (String × Json) :=
  if cell.waiting.isEmpty then []
  else
    [("wait", .array (cell.waiting.toList.map fun (source, edge) =>
        .array [address source, .bool edge.satisfied, orNull callback edge.callback])),
      ("pending", .natural cell.pending.length)]

def triggerList (cell : Cell) : List (String × Json) :=
  if cell.triggers.isEmpty then []
  else [("trig", .array (cell.triggers.toList.map address))]

def cell (entry : Path × Cell) : Json :=
  .object ([("k", path entry.1), ("f", .string (flags entry.2))] ++
    presentDatum "v" entry.2.value ++ presentDatum "prev" entry.2.previous ++
    waitingEdges entry.2 ++ triggerList entry.2)

def role : Role → Json
  | .plain => .string "plain"
  | .data role =>
    .object [("data", identifier role.entity), ("precedence", orNull Json.natural role.precedence)]
  | .variableTable role =>
    .object [("variables", orNull identifier role.owner),
      ("bindings", .array (role.bindings.toList.map fun (name, key) =>
        .array [.string name, address key]))]
  | .command command =>
    .object [("command", .string command.source), ("owner", identifier command.owner),
      ("target", orNull address command.target), ("executed", .bool command.executed)]

/-- All live trees by handle. -/
def network (network : Network) : Json :=
  .array (network.trees.entries.map fun (key, tree) =>
    .object [("dep", handle key), ("kind", role tree.role),
      ("keys", .array (tree.keys.toList.map cell))])

/-- The commands by handle. -/
def commands (network : Network) : Json :=
  .array (network.commands.map fun (key, command) =>
    .array [handle key, .string command.source, orNull address command.target,
      .bool command.executed])

def field (value : Field) : Json :=
  .object [("path", path value.path), ("value", orNull datum value.value),
    ("previous", orNull datum value.previous), ("locked", .bool value.locked),
    ("known", .bool value.known), ("propagated", .bool value.propagated)]

def counts (value : Counts) : Json :=
  .array [.natural value.events, .natural value.callbacks, .natural value.propagated,
    .natural value.commands]

end ConceptLaws.Report
