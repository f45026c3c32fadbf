import ConceptLaws.Arithmetic.Evaluation
import ConceptLaws.Propagation.Activation
import ConceptLaws.Propagation.DataTree

/-! Execution of commands.
A command evaluates its expression with the values of its sources and applies its action to its
target. With recursive sources it does so once for every valued key below them, and a source without
a value there stands with that of the nearest key above. -/

namespace ConceptLaws.Propagation

open Command

namespace Network

/-- The value nearest to a suffix, from there up to the source itself. -/
def nearestValue? (network : Network) (source : Address) (suffix : Path) : Option Datum :=
  suffix.ancestry.findSome? fun above => network.value? (source.below above)

/-- A symbol is put into parentheses where it binds less tightly than the command's owner. -/
def fenced (network : Network) (command : Compiled) (source : Address) (value : Datum) : Datum :=
  if source.path = symbolPath then
    match command.precedence, network.precedence? source.tree with
    | some own, some other => if own < other then .text (Markup.fence value.display) else value
    | _, _ => value
  else value

/-- The value that stands for a source. -/
def operand? (network : Network) (command : Compiled) (recursive : Bool) (suffix : Path)
    (source : Address) : Option Datum :=
  let value := if recursive then network.nearestValue? source suffix else network.value? source
  value.map (network.fenced command source)

/-- A block of one source stands for its value, a block of several for the list of those there are.
-/
def blockPart (network : Network) (command : Compiled) (suffix : Path) :
    BoundBlock → Arithmetic.Part
  | .text content => .source content
  | .sources keys recursive _ =>
    let values := keys.filterMap (network.operand? command recursive suffix)
    match keys, values with
    | _, [] => .operand none
    | [_], value :: _ => .operand (some value)
    | _, values => .operand (some (.list values))

/-- The value of the expression for a suffix. -/
def evaluateAt (network : Network) (command : Compiled) (suffix : Path) :
    Except Arithmetic.Fault Datum :=
  Arithmetic.evaluate (command.blocks.map (network.blockPart command suffix))

def recursiveSources : BoundBlock → List Address
  | .sources keys true _ => keys
  | _ => []

/-- The keys whose sub-trees a command runs through: its recursive sources, or else its recursive
target. -/
def recursiveTops (command : Compiled) : List Address :=
  let sources := command.blocks.flatMap recursiveSources
  if sources.isEmpty && command.recursiveTarget then command.target.toList else sources

/-- The paths from a key to the valued keys below it. -/
def valuedBelow (network : Network) (top : Address) : List Path :=
  match network.tree? top.tree with
  | none => []
  | some tree =>
    (tree.descendants top.path).filterMap fun (path, cell) =>
      if cell.value.isSome then path.relative? top.path else none

/-- The suffixes for which a command is evaluated, in order. -/
def suffixes (network : Network) (command : Compiled) : List Path :=
  let valued : Std.ExtTreeSet Path :=
    (recursiveTops command).foldl (fun paths top => paths.insertMany (network.valuedBelow top)) ∅
  if valued.isEmpty then [Path.root] else valued.toList

/-- The value to write: with an accumulating action the current value comes in. -/
def accumulate (network : Network) (operation : Arithmetic.Operator) (key : Address)
    (value : Datum) : Network :=
  match network.value? key with
  | none => (network.write key value).2
  | some current =>
    match Arithmetic.combine operation current value with
    | .ok combined => (network.write key combined).2
    | .error _ => network

/-- Applies an action to a key. -/
def applyAction (network : Network) (action : Action) (key : Address) (value : Datum) : Network :=
  match action with
  | .assign => (network.write key value).2
  | .increase => network.accumulate .plus key value
  | .decrease => network.accumulate .minus key value
  | .scale => network.accumulate .times key value
  | .addChild => (network.appendChild key value).2
  | .addValue => (network.appendValue key value).2
  | .clear => network.clearKey key

/-- All values are computed before the first one is applied; where that fails nothing is. -/
def applyResults (network : Network) (command : Compiled) (target : Address) : Network :=
  let results := (network.suffixes command).map fun suffix =>
    (suffix, network.evaluateAt command suffix)
  results.foldl (fun network (suffix, result) =>
    match result with
    | .ok value => network.applyAction command.action (target.below suffix) value
    | .error _ => network) network

/-- A cascade that is run to its end. -/
abbrev Cascade := Network → Network

/-- Marks a key known, with `recursive` its sub-tree too, and runs the cascade. -/
def setKnown (cascade : Cascade) (network : Network) (key : Address) (recursive : Bool) : Network :=
  match network.tree? key.tree with
  | none => network
  | some _ =>
    let know (cell : Cell) : Cell := { cell with known := true }
    let network := network.ensureWith key know
    let network := if recursive then
        network.updateTree key.tree fun tree =>
          (tree.subtreePaths key.path).foldl (fun tree path => tree.update path know) tree
      else network
    cascade (network.updateAgenda fun agenda => agenda.pushCheck key)

/-- The key of a variable in its table. -/
def variableKey (variableTable : Handle) (name : String) : Address := ⟨variableTable, [name]⟩

/-- Binds a variable and makes its key known; keys of variables are always active. -/
def bindVariable (cascade : Cascade) (network : Network) (variableTable : Handle) (name : String)
    (target : Address) : Network :=
  match (network.tree? variableTable).map Tree.role with
  | some (.variableTable role) =>
    let bound : Role := .variableTable { role with bindings := role.bindings.insert name target }
    let network := network.updateTree variableTable fun tree => { tree with role := bound }
    let network := network.ensureWith (variableKey variableTable name) fun cell =>
      { cell with active := true }
    network.setKnown cascade (variableKey variableTable name) false
  | _ => network

def command? (network : Network) (handle : Handle) : Option Compiled :=
  match (network.tree? handle).map Tree.role with
  | some (.command command) => some command
  | _ => none

def setCommand (network : Network) (handle : Handle) (command : Compiled) : Network :=
  network.updateTree handle fun tree => { tree with role := .command command }

/-- Carries out a command that has its target. -/
def carryOut (network : Network) (command : Compiled) (target : Address) : Network :=
  let network := network.updateCounts fun counts => { counts with commands := counts.commands + 1 }
  if command.action = .clear then network.clearKey target
  else network.applyResults command target

/-- Executes a command once: evaluates, applies, and binds its target if it names a variable. -/
def execute (cascade : Cascade) (network : Network) (handle : Handle) : Network :=
  match network.command? handle with
  | none => network
  | some command =>
    if command.executed then network
    else
      let network := network.setCommand handle { command with executed := true }
      match command.target with
      | none => network
      | some target =>
        let network := network.carryOut command target
        match command.bind with
        | some name => network.bindVariable cascade command.variableTable name target
        | none => network

/-- Adds a key to the sources of the block at a place; none if no sources are there. -/
def addSource? (binding : Address) : Nat → List BoundBlock → Option (Address × List BoundBlock)
  | 0, .sources keys recursive suffix :: rest =>
    let key := binding.below suffix
    let keys := if keys.contains key then keys else keys ++ [key]
    some (key, .sources keys recursive suffix :: rest)
  | place + 1, block :: rest =>
    (addSource? binding place rest).map fun (key, blocks) => (key, block :: blocks)
  | _, _ => none

/-- Lets a command know what one of its variables is bound to, and makes the target wait on the
command or the command on the new source. -/
def bindCommand (network : Network) (handle : Handle) (source : Address) (callback : Callback) :
    Network :=
  match source.path.head? with
  | none => network
  | some name =>
    match network.binding? source.tree name, network.command? handle with
    | some binding, some command =>
      match callback with
      | .bindTarget =>
        let target := binding.below command.targetSuffix
        let network := network.setCommand handle { command with target := some target }
        (network.waitOn target (.ofTree handle) none).2
      | .bindBlock place =>
        match addSource? binding place command.blocks with
        | none => network
        | some (key, blocks) =>
          let network := network.setCommand handle { command with blocks := blocks }
          (network.waitOn (.ofTree handle) key none).2
    | _, _ => network

end Network

end ConceptLaws.Propagation
