import ConceptLaws.Propagation.Cascade
import ConceptLaws.Relation.Basic

/-! Compilation of commands.
A command is compiled for an entity, once for every target that its reference reaches. The root of
the compiled command waits on all sources, and the target waits on the root. A command that reads
nothing runs at once. A reference that reaches no entity bars its command for good. -/

namespace ConceptLaws.Command

open Propagation

/-- What compilation reads. -/
structure Context where
  relation : Relation
  catalog : Catalog
  trees : Std.ExtTreeMap EntityId EntityTrees

/-- Where a command writes: a key, or whatever a variable will be bound to. -/
inductive Target where
  | key (address : Address)
  | bound (variableName : String)
deriving Repr, DecidableEq

namespace Context

/-- The keys that a reference names in the data trees of the entities it reaches. -/
def keysOf (context : Context) (reference : Reference) (owner : EntityId) (swapped : Bool) :
    List Address :=
  (reference.reach context.relation context.catalog owner swapped).filterMap fun id =>
    context.trees[id]?.map fun trees => ⟨trees.data, reference.key⟩

def targetsOf (context : Context) (reference : Reference) (owner : EntityId) (swapped : Bool) :
    List Target :=
  match reference.base with
  | .named variableName => [.bound variableName]
  | .nodes _ => (context.keysOf reference owner swapped).map .key

end Context

/-- A command under construction: its blocks, what it waits on, and whether a reference reached no
entity. -/
structure Draft where
  network : Network
  blocks : List BoundBlock
  waits : List (Address × Option Callback)
  unreachable : Bool

/-- Compiles a block. A reference to entities may bind a variable to the first key it names. -/
def Draft.addBlock (context : Context) (owner : EntityId) (trees : EntityTrees) (swapped : Bool)
    (draft : Draft) (block : Block × Nat) : Draft :=
  match block.1 with
  | .text content => { draft with blocks := draft.blocks ++ [.text content] }
  | .reference reference =>
    match reference.base with
    | .named variableName =>
      { draft with
        blocks := draft.blocks ++ [.sources [] reference.recursive reference.key]
        waits := draft.waits ++
          [(Network.variableKey trees.variableTable variableName, some (.bindBlock block.2))] }
    | .nodes _ =>
      let keys := context.keysOf reference owner swapped
      { network := match reference.bind, keys with
          | some name, first :: _ => draft.network.bind trees.variableTable name first
          | _, _ => draft.network
        blocks := draft.blocks ++ [.sources keys reference.recursive Path.root]
        waits := draft.waits ++ keys.map fun key => (key, none)
        unreachable := draft.unreachable || keys.isEmpty }

def Target.key? : Target → Option Address
  | key address => some address
  | bound _ => none

/-- The keys at and below known ones hold primary data. -/
def Target.isPrimary (target : Target) (network : Network) : Bool :=
  match target with
  | .key address =>
    ((network.tree? address.tree).map fun tree => tree.isUnderKnown address.path).getD false
  | .bound _ => false

def compiledOf (network : Network) (owner : EntityId) (trees : EntityTrees) (template : Template)
    (target : Target) (blocks : List BoundBlock) : Compiled where
  source := template.source
  owner := owner
  variableTable := trees.variableTable
  action := template.action
  target := target.key?
  targetSuffix := match target with
    | .key _ => Path.root
    | .bound _ => template.target.key
  recursiveTarget := template.target.recursive
  blocks := blocks
  bind := template.target.bind
  precedence := network.precedence? trees.data
  executed := false

/-- Connects the root of a new command with its sources and its target. -/
def connect (network : Network) (trees : EntityTrees) (root : Address) (target : Target)
    (draft : Draft) : Network :=
  let network := if draft.unreachable then network.block root else network
  let network := draft.waits.foldl (fun network (source, callback) =>
    (network.waitOn root source callback).2) network
  match target with
  | .key address => (network.waitOn address root none).2
  | .bound variableName =>
    let source := Network.variableKey trees.variableTable variableName
    (network.waitOn root source (some .bindTarget)).2

/-- Makes one command for one target. Targets that hold primary data are left alone. -/
def instantiate (context : Context) (owner : EntityId) (trees : EntityTrees) (template : Template)
    (swapped : Bool) (network : Network) (target : Target) : Network :=
  if target.isPrimary network then network
  else
    let draft := template.expression.blocks.zipIdx.foldl
      (Draft.addBlock context owner trees swapped) ⟨network, [], [], false⟩
    let command := compiledOf draft.network owner trees template target draft.blocks
    let (handle, network) := draft.network.create (.command command)
    if template.expression.isConstant && target.key?.isSome then
      ((network.execute Network.drain handle).remove handle).2
    else connect network trees (.ofTree handle) target draft

/-- Compiles a template for an entity; tells the number of targets. -/
def compileTemplate (context : Context) (network : Network) (owner : EntityId)
    (template : Template) (swapped : Bool) : Nat × Network :=
  match context.trees[owner]? with
  | none => (0, network)
  | some trees =>
    let targets := context.targetsOf template.target owner swapped
    (targets.length,
      targets.foldl (instantiate context owner trees template swapped) network)

/-- Whether the concept of an entity is symmetric. -/
def Context.isSymmetric (context : Context) (owner : EntityId) : Bool :=
  ((context.relation.get? owner >>= fun entity =>
    context.catalog.concept? entity.concept).map Concept.symmetric).getD false

/-- Reads and compiles a command; one that cannot be read is left out. For a symmetric concept it is
compiled a second time with head and reference exchanged. -/
def compileSource (context : Context) (network : Network) (owner : EntityId) (source : String) :
    Nat × Network :=
  match Template.parse source with
  | .error _ => (0, network)
  | .ok template =>
    let (count, network) := compileTemplate context network owner template false
    if context.isSymmetric owner then
      let (more, network) := compileTemplate context network owner template true
      (count + more, network)
    else (count, network)

end ConceptLaws.Command
