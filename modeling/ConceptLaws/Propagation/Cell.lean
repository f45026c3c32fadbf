import ConceptLaws.Arena
import ConceptLaws.Datum
import ConceptLaws.Path
import Std.Data.ExtTreeSet

/-! The address of a key: a tree and a path in it. -/

namespace ConceptLaws.Propagation

structure Address where
  tree : Handle
  path : Path
deriving Repr, DecidableEq, Inhabited

namespace Address

instance : Ord Address where
  compare := compareLex (compareOn tree) (compareOn path)

instance : Std.TransOrd Address :=
  inferInstanceAs (Std.TransCmp (compareLex (compareOn tree) (compareOn path)))

instance : Std.LawfulEqOrd Address where
  compare_self := (inferInstance : Std.ReflCmp
    (compareLex (compareOn tree) (compareOn path))).compare_self
  eq_of_compare {left right} same := by
    obtain ⟨trees, paths⟩ := Ordering.then_eq_eq.1 same
    have sameTree : left.tree = right.tree := Std.LawfulEqCmp.eq_of_compare trees
    have samePath : left.path = right.path := Std.LawfulEqCmp.eq_of_compare paths
    cases left
    cases right
    simp_all

/-- The root key of a tree. -/
def ofTree (tree : Handle) : Address := ⟨tree, Path.root⟩

/-- The key at a further path below. -/
def below (address : Address) (suffix : Path) : Address :=
  ⟨address.tree, address.path.join suffix⟩

end Address

end ConceptLaws.Propagation

/-! What is kept for a key: its value and state, the keys it waits on, and the keys that wait on it.
-/

namespace ConceptLaws.Propagation

/-- What a command does once a variable that it waits on is bound. -/
inductive Callback where
  /-- The variable is the target of the command. -/
  | bindTarget
  /-- The block of this place reads the variable. -/
  | bindBlock (place : Nat)
deriving Repr, DecidableEq

/-- A waiting edge. Its callback is taken when the edge is satisfied, so it runs once. -/
structure Edge where
  satisfied : Bool
  callback : Option Callback
deriving Repr, DecidableEq

structure Cell where
  value : Option Datum
  /-- The value before the last change. -/
  previous : Option Datum
  /-- The value was derived by a command and cannot be edited. -/
  locked : Bool
  /-- Only active keys are completed. -/
  active : Bool
  /-- The key does not have to wait for its edges. -/
  known : Bool
  /-- The key is complete, and the keys that wait on it were told. -/
  propagated : Bool
  /-- The key can never be completed. -/
  blocked : Bool
  /-- The edges by the key waited on. -/
  waiting : Std.ExtTreeMap Address Edge
  /-- The keys that wait on this one. -/
  triggers : Std.ExtTreeSet Address

namespace Cell

def fresh (active : Bool) : Cell where
  value := none
  previous := none
  locked := false
  active := active
  known := false
  propagated := false
  blocked := false
  waiting := ∅
  triggers := ∅

instance : Inhabited Cell := ⟨fresh false⟩

/-- The keys still waited on. -/
def pending (cell : Cell) : List Address :=
  (cell.waiting.toList.filter fun (_, edge) => !edge.satisfied).map Prod.fst

/-- Takes part in no edge. -/
def isUnlinked (cell : Cell) : Bool := cell.waiting.isEmpty && cell.triggers.isEmpty

/-- Replaces the value and remembers the one before. -/
def replace (cell : Cell) (value : Option Datum) : Cell :=
  { cell with value := value, previous := cell.value }

/-- An unsatisfied edge counts one, and its callback two more: running it may add one edge. -/
def pendingWeight (cell : Cell) : Nat :=
  cell.waiting.foldl (fun total _ edge =>
    if edge.satisfied then total else total + (if edge.callback.isSome then 3 else 1)) 0

end Cell

end ConceptLaws.Propagation
