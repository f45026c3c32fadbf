import ConceptLaws.Command.Template
import ConceptLaws.Propagation.Cell

/-! Trees of keys.
A tree always has its root, and with a key all ancestors of it. In the order of paths the keys at
and below a path stand together, so a sub-tree is a section of the key list. -/

namespace ConceptLaws.Propagation

/-- The data tree of an entity. -/
structure DataRole where
  entity : EntityId
  precedence : Option Nat
deriving Repr, DecidableEq

/-- The variables of an entity, and what is bound to them. -/
structure VariableRole where
  owner : Option EntityId
  bindings : Std.ExtTreeMap String Address

inductive Role where
  | data (role : DataRole)
  | variableTable (role : VariableRole)
  | command (command : Command.Compiled)
  | plain

def Role.isVariables : Role → Bool
  | variableTable _ => true
  | _ => false

structure Tree where
  role : Role
  keys : Std.ExtTreeMap Path Cell

namespace Tree

def ofRole (role : Role) : Tree :=
  ⟨role, (∅ : Std.ExtTreeMap Path Cell).insert Path.root (.fresh false)⟩

def cell? (tree : Tree) (path : Path) : Option Cell := tree.keys[path]?

def contains (tree : Tree) (path : Path) : Bool := tree.keys.contains path

/-- Changes a key, if it is there. -/
def update (tree : Tree) (path : Path) (change : Cell → Cell) : Tree :=
  { tree with keys := tree.keys.modify path change }

/-- Whether the closest existing key at or above a path is active. -/
def inheritsActive (tree : Tree) (path : Path) : Bool :=
  ((path.ancestry.findSome? tree.cell?).map Cell.active).getD false

/-- Adds a key and its missing ancestors; they are active if the closest ancestor is. -/
def ensure (tree : Tree) (path : Path) : Tree :=
  let missing := path.ancestry.takeWhile fun above => !tree.contains above
  let fresh := Cell.fresh (tree.inheritsActive path)
  { tree with keys := missing.foldl (fun keys above => keys.insert above fresh) tree.keys }

/-- The section of the keys at and below a path, in order. -/
def subtree (tree : Tree) (top : Path) : List (Path × Cell) :=
  (tree.keys.toList.dropWhile fun (path, _) => compare path top == .lt).takeWhile
    fun (path, _) => path.isWithin top

def subtreePaths (tree : Tree) (top : Path) : List Path := (tree.subtree top).map Prod.fst

/-- The keys strictly below a path, in order. -/
def descendants (tree : Tree) (top : Path) : List (Path × Cell) :=
  (tree.subtree top).dropWhile fun (path, _) => path == top

/-- The keys one segment below a path, in order. -/
def children (tree : Tree) (top : Path) : List Path :=
  ((tree.descendants top).map Prod.fst).filter fun path => path.length == top.length + 1

/-- Removes a key; the root stays. -/
def erase (tree : Tree) (path : Path) : Tree :=
  if path.isEmpty then tree else { tree with keys := tree.keys.erase path }

/-- Whether a path lies at or below the one to be skipped. -/
def skips (skipped : Option Path) (path : Path) : Bool :=
  match skipped with
  | some top => path.isWithin top
  | none => false

/-- The unsatisfied edges of a section, without the sub-trees of known keys below `top`; none if a
key is blocked. -/
def pendingOf (top : Path) :
    Option Path → List (Path × Cell) → Option (List (Path × Address))
  | _, [] => some []
  | skipped, (path, cell) :: rest =>
    if skips skipped path then pendingOf top skipped rest
    else if path != top && cell.known then pendingOf top (some path) rest
    else if cell.blocked then none
    else (pendingOf top none rest).map ((cell.pending.map fun source => (path, source)) ++ ·)

/-- The unsatisfied edges at and below a path, as pairs of waiting key and source. -/
def pending? (tree : Tree) (top : Path) : Option (List (Path × Address)) :=
  pendingOf top none (tree.subtree top)

/-- What goes with a key that is completed: keys to complete as well, and keys to check later. -/
structure Following where
  ready : List Path
  deferred : List Path
deriving Repr, DecidableEq

/-- Keys below a known key wait for a check of their own, and so do blocked keys; with `knownTop`
all of them do. -/
def followingOf (knownTop : Bool) : Option Path → List (Path × Cell) → Following
  | _, [] => ⟨[], []⟩
  | skipped, (path, cell) :: rest =>
    if skips skipped path then
      let following := followingOf knownTop skipped rest
      if cell.propagated then following
      else { following with deferred := path :: following.deferred }
    else if cell.propagated then followingOf knownTop none rest
    else if knownTop || cell.blocked then
      let following := followingOf knownTop none rest
      { following with deferred := path :: following.deferred }
    else
      let following := followingOf knownTop (if cell.known then some path else none) rest
      { following with ready := path :: following.ready }

/-- Longer paths first, then by path. -/
def deeperFirst (left right : Path) : Bool :=
  left.length > right.length || (left.length == right.length && (compare left right).isLE)

/-- What goes with a key, deepest keys first. -/
def following (tree : Tree) (top : Path) : Following :=
  let knownTop := ((tree.cell? top).map Cell.known).getD false
  let following := followingOf knownTop none (tree.descendants top)
  { following with ready := following.ready.mergeSort deeperFirst }

/-- Whether a key at or above a path is known. -/
def isUnderKnown (tree : Tree) (path : Path) : Bool :=
  path.ancestry.any fun above => ((tree.cell? above).map Cell.known).getD false

def edgeCount (tree : Tree) : Nat :=
  tree.keys.foldl (fun total _ cell => total + cell.waiting.size) 0

def activeCount (tree : Tree) : Nat :=
  tree.keys.foldl (fun total _ cell => if cell.active then total + 1 else total) 0

def pendingWeight (tree : Tree) : Nat :=
  tree.keys.foldl (fun total _ cell => total + cell.pendingWeight) 0

end Tree

end ConceptLaws.Propagation
