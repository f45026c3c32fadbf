import ConceptLaws.Proofs.Past.Arena
import ConceptLaws.Proofs.Propagation.Tree
import Mathlib.Logic.Function.Basic
import Std.Data.ExtTreeSet

/-! Trees with a past.
A renaming of keys that keeps their order carries sets and tables over: what is listed of them is
renamed, and listed in the same order. What a key of a tree holds is carried over with the handles in
it renamed. The paths of a tree are what they are, so whatever is said of the paths of a tree and of
the state of its keys stays the same. -/

namespace ConceptLaws

structure Renaming (α : Type) [Ord α] where
  apply : α → α
  ordered : ∀ left right, compare (apply left) (apply right) = compare left right

namespace Renaming

variable {α β : Type} [DecidableEq α] [Ord α] [Std.TransOrd α] [Std.LawfulEqOrd α]
  (names : Renaming α)

omit [DecidableEq α] [Std.TransOrd α] in
theorem injective : Function.Injective names.apply := by
  intro left right same
  rw [← Std.compare_eq_iff_eq (α := α), ← names.ordered, same]
  exact Std.compare_self

omit [DecidableEq α] [Std.TransOrd α] in
@[simp] theorem apply_inj {left right : α} :
    names.apply left = names.apply right ↔ left = right :=
  names.injective.eq_iff

/-! ## Tables -/

/-- The table with its keys renamed. -/
def table (entries : Std.ExtTreeMap α β) : Std.ExtTreeMap α β :=
  .ofList (entries.toList.map fun entry => (names.apply entry.1, entry.2))

omit [DecidableEq α] [Std.LawfulEqOrd α] in
theorem pairwise_renamed (entries : Std.ExtTreeMap α β) :
    (entries.toList.map fun entry => (names.apply entry.1, entry.2)).Pairwise
      fun left right => compare left.1 right.1 = .lt := by
  rw [List.pairwise_map]
  exact entries.ordered_keys_toList.imp fun ordered => (names.ordered _ _).trans ordered

theorem mem_table {entries : Std.ExtTreeMap α β} {key : α} {value : β} :
    (names.table entries)[key]? = some value ↔
      ∃ before, names.apply before = key ∧ entries[before]? = some value := by
  have distinct : (entries.toList.map fun entry => (names.apply entry.1, entry.2)).Pairwise
      fun left right => ¬compare left.1 right.1 = .eq :=
    (names.pairwise_renamed entries).imp fun ordered => by simp [ordered]
  constructor
  · intro found
    have listed : (entries.toList.map fun entry => (names.apply entry.1, entry.2)).map
        Prod.fst |>.contains key := by
      by_contra absent
      unfold table at found
      rw [Std.ExtTreeMap.getElem?_ofList_of_contains_eq_false (by simpa using absent)] at found
      simp at found
    simp only [List.map_map, List.contains_iff_mem, List.mem_map] at listed
    obtain ⟨⟨before, other⟩, member, rfl⟩ := listed
    have here : (names.table entries)[names.apply before]? = some other :=
      Std.ExtTreeMap.getElem?_ofList_of_mem Std.compare_self distinct
        (List.mem_map.2 ⟨(before, other), member, rfl⟩)
    obtain rfl := Option.some.inj (here.symm.trans found)
    exact ⟨before, rfl, Std.ExtTreeMap.mem_toList_iff_getElem?_eq_some.1 member⟩
  · intro before
    obtain ⟨before, rfl, held⟩ := before
    exact Std.ExtTreeMap.getElem?_ofList_of_mem Std.compare_self distinct
      (List.mem_map.2 ⟨(before, value), Std.ExtTreeMap.mem_toList_iff_getElem?_eq_some.2 held, rfl⟩)

@[simp] theorem getElem?_table (entries : Std.ExtTreeMap α β) (key : α) :
    (names.table entries)[names.apply key]? = entries[key]? := by
  ext value
  rw [mem_table]
  simp

@[simp] theorem table_insert (entries : Std.ExtTreeMap α β) (key : α) (value : β) :
    names.table (entries.insert key value) =
      (names.table entries).insert (names.apply key) value := by
  ext other found
  rw [mem_table]
  simp only [Std.ExtTreeMap.getElem?_insert, Std.compare_eq_iff_eq]
  split
  · rename_i same
    subst same
    simp
  · rename_i different
    rw [mem_table]
    refine exists_congr fun before => and_congr_right fun same => ?_
    rw [if_neg (by rintro rfl; exact different same)]

@[simp] theorem toList_table (entries : Std.ExtTreeMap α β) : (names.table entries).toList =
    entries.toList.map fun entry => (names.apply entry.1, entry.2) := by
  refine List.Perm.eq_of_pairwise (fun left right _ _ before after => ?_)
    (names.table entries).ordered_keys_toList (names.pairwise_renamed entries) ?_
  · rw [Std.OrientedCmp.gt_iff_lt.2 before] at after
    simp at after
  · refine (List.perm_ext_iff_of_nodup ?_ ?_).2 fun entry => ?_
    · exact (names.table entries).ordered_keys_toList.imp fun ordered same => by simp [same] at ordered
    · exact (names.pairwise_renamed entries).imp fun ordered same => by simp [same] at ordered
    · obtain ⟨key, value⟩ := entry
      rw [Std.ExtTreeMap.mem_toList_iff_getElem?_eq_some, mem_table]
      simp only [List.mem_map, Prod.mk.injEq, Prod.exists,
        Std.ExtTreeMap.mem_toList_iff_getElem?_eq_some]
      grind

@[simp] theorem keys_table (entries : Std.ExtTreeMap α β) :
    (names.table entries).keys = entries.keys.map names.apply := by
  rw [← Std.ExtTreeMap.map_fst_toList_eq_keys, ← Std.ExtTreeMap.map_fst_toList_eq_keys,
    toList_table, List.map_map, List.map_map]
  rfl

@[simp] theorem contains_table (entries : Std.ExtTreeMap α β) (key : α) :
    (names.table entries).contains (names.apply key) = entries.contains key := by
  rw [Std.ExtTreeMap.contains_eq_isSome_getElem?, getElem?_table,
    Std.ExtTreeMap.contains_eq_isSome_getElem?]

@[simp] theorem isEmpty_table (entries : Std.ExtTreeMap α β) :
    (names.table entries).isEmpty = entries.isEmpty := by
  rw [← Std.ExtTreeMap.isEmpty_toList, toList_table, ← Std.ExtTreeMap.isEmpty_toList]
  exact List.isEmpty_map

@[simp] theorem size_table (entries : Std.ExtTreeMap α β) :
    (names.table entries).size = entries.size := by
  rw [← Std.ExtTreeMap.length_toList, toList_table, List.length_map, Std.ExtTreeMap.length_toList]

@[simp] theorem table_empty : names.table (∅ : Std.ExtTreeMap α β) = ∅ := by
  ext key value
  rw [mem_table]
  simp

/-! ## Sets -/

/-- The set of renamed keys. -/
def set (keys : Std.ExtTreeSet α) : Std.ExtTreeSet α := .ofList (keys.toList.map names.apply)

theorem mem_set {keys : Std.ExtTreeSet α} {key : α} :
    key ∈ names.set keys ↔ ∃ before ∈ keys, names.apply before = key := by
  unfold set
  rw [Std.ExtTreeSet.mem_ofList]
  simp

@[simp] theorem apply_mem_set {keys : Std.ExtTreeSet α} {key : α} :
    names.apply key ∈ names.set keys ↔ key ∈ keys := by
  rw [mem_set]
  simp

@[simp] theorem contains_set (keys : Std.ExtTreeSet α) (key : α) :
    (names.set keys).contains (names.apply key) = keys.contains key := by
  rw [Bool.eq_iff_iff, ← Std.ExtTreeSet.mem_iff_contains, ← Std.ExtTreeSet.mem_iff_contains]
  exact names.apply_mem_set

@[simp] theorem set_insert (keys : Std.ExtTreeSet α) (key : α) :
    names.set (keys.insert key) = (names.set keys).insert (names.apply key) := by
  ext other
  simp only [mem_set, Std.ExtTreeSet.mem_insert, Std.compare_eq_iff_eq]
  grind

@[simp] theorem set_erase (keys : Std.ExtTreeSet α) (key : α) :
    names.set (keys.erase key) = (names.set keys).erase (names.apply key) := by
  ext other
  simp only [mem_set, Std.ExtTreeSet.mem_erase, ne_eq, Std.compare_eq_iff_eq]
  grind [names.apply_inj]

@[simp] theorem set_empty : names.set (∅ : Std.ExtTreeSet α) = ∅ := by
  ext key
  simp [mem_set]

@[simp] theorem toList_set (keys : Std.ExtTreeSet α) :
    (names.set keys).toList = keys.toList.map names.apply := by
  have renamed : (keys.toList.map names.apply).Pairwise fun left right =>
      compare left right = .lt := by
    rw [List.pairwise_map]
    exact keys.ordered_toList.imp fun ordered => (names.ordered _ _).trans ordered
  refine List.Perm.eq_of_pairwise (fun left right _ _ before after => ?_)
    (names.set keys).ordered_toList renamed ?_
  · rw [Std.OrientedCmp.gt_iff_lt.2 before] at after
    simp at after
  · refine (List.perm_ext_iff_of_nodup ?_ ?_).2 fun key => ?_
    · exact (names.set keys).ordered_toList.imp fun ordered same => by simp [same] at ordered
    · exact renamed.imp fun ordered same => by simp [same] at ordered
    · rw [Std.ExtTreeSet.mem_toList, mem_set]
      simp

@[simp] theorem isEmpty_set (keys : Std.ExtTreeSet α) :
    (names.set keys).isEmpty = keys.isEmpty := by
  rw [← Std.ExtTreeSet.isEmpty_toList, toList_set, ← Std.ExtTreeSet.isEmpty_toList]
  exact List.isEmpty_map

end Renaming

end ConceptLaws

/-! ## Keys of trees -/

namespace ConceptLaws.Past

open Propagation

variable (past : Past)

/-- The renaming of keys by their trees. -/
def addresses : Renaming Address where
  apply key := ⟨past.handle key.tree, key.path⟩
  ordered left right := by
    change (compare _ _).then (compare _ _) = (compare _ _).then (compare _ _)
    rw [past.compare_handle]

/-- The key in place of one of a new network. -/
abbrev key (key : Address) : Address := past.addresses.apply key

@[simp] theorem tree_key (key : Address) : (past.key key).tree = past.handle key.tree := rfl

@[simp] theorem path_key (key : Address) : (past.key key).path = key.path := rfl

@[simp] theorem mk_key (tree : Handle) (path : Path) :
    (⟨past.handle tree, path⟩ : Address) = past.key ⟨tree, path⟩ := rfl

@[simp] theorem ofTree_key (tree : Handle) :
    Address.ofTree (past.handle tree) = past.key (.ofTree tree) := rfl

@[simp] theorem below_key (key : Address) (suffix : Path) :
    (past.key key).below suffix = past.key (key.below suffix) := rfl

/-! ## Cells -/

def cell (cell : Cell) : Cell :=
  { cell with
    waiting := past.addresses.table cell.waiting
    triggers := past.addresses.set cell.triggers }

section cells

variable (cell : Cell)

@[simp] theorem value_cell : (past.cell cell).value = cell.value := rfl
@[simp] theorem locked_cell : (past.cell cell).locked = cell.locked := rfl
@[simp] theorem active_cell : (past.cell cell).active = cell.active := rfl
@[simp] theorem known_cell : (past.cell cell).known = cell.known := rfl
@[simp] theorem propagated_cell : (past.cell cell).propagated = cell.propagated := rfl
@[simp] theorem blocked_cell : (past.cell cell).blocked = cell.blocked := rfl

@[simp] theorem waiting_cell :
    (past.cell cell).waiting = past.addresses.table cell.waiting := rfl

@[simp] theorem triggers_cell :
    (past.cell cell).triggers = past.addresses.set cell.triggers := rfl

@[simp] theorem fresh_cell (active : Bool) : past.cell (.fresh active) = .fresh active := by
  simp [Past.cell, Cell.fresh]

@[simp] theorem replace_cell (value : Option Datum) :
    (past.cell cell).replace value = past.cell (cell.replace value) := rfl

@[simp] theorem pending_cell : (past.cell cell).pending = cell.pending.map past.key := by
  simp only [Cell.pending, waiting_cell, Renaming.toList_table, List.filter_map, List.map_map]
  rfl

@[simp] theorem isUnlinked_cell : (past.cell cell).isUnlinked = cell.isUnlinked := by
  simp [Cell.isUnlinked]

@[simp] theorem pendingWeight_cell : (past.cell cell).pendingWeight = cell.pendingWeight := by
  simp only [Cell.pendingWeight, Std.ExtTreeMap.foldl_eq_foldl_toList, waiting_cell,
    Renaming.toList_table, List.foldl_map]

end cells

/-! ## Roles -/

def block : Command.BoundBlock → Command.BoundBlock
  | .text content => .text content
  | .sources keys recursive suffix => .sources (keys.map past.key) recursive suffix

def command (command : Command.Compiled) : Command.Compiled :=
  { command with
    variableTable := past.handle command.variableTable
    target := command.target.map past.key
    blocks := command.blocks.map past.block }

section commands

variable (command : Command.Compiled)

@[simp] theorem action_command : (past.command command).action = command.action := rfl
@[simp] theorem bind_command : (past.command command).bind = command.bind := rfl
@[simp] theorem precedence_command : (past.command command).precedence = command.precedence := rfl
@[simp] theorem executed_command : (past.command command).executed = command.executed := rfl

@[simp] theorem variableTable_command :
    (past.command command).variableTable = past.handle command.variableTable := rfl

@[simp] theorem target_command :
    (past.command command).target = command.target.map past.key := rfl

@[simp] theorem targetSuffix_command :
    (past.command command).targetSuffix = command.targetSuffix := rfl

@[simp] theorem recursiveTarget_command :
    (past.command command).recursiveTarget = command.recursiveTarget := rfl

@[simp] theorem blocks_command :
    (past.command command).blocks = command.blocks.map past.block := rfl

end commands

def variableRole (role : VariableRole) : VariableRole :=
  { role with bindings := role.bindings.map fun _ key => past.key key }

def role : Role → Role
  | .data role => .data role
  | .variableTable role => .variableTable (past.variableRole role)
  | .command command => .command (past.command command)
  | .plain => .plain

@[simp] theorem isVariables_role (role : Role) : (past.role role).isVariables = role.isVariables := by
  cases role <;> rfl

/-! ## Trees -/

def tree (tree : Tree) : Tree := ⟨past.role tree.role, tree.keys.map fun _ cell => past.cell cell⟩

section trees

variable (tree : Tree)

@[simp] theorem role_tree : (past.tree tree).role = past.role tree.role := rfl

@[simp] theorem cell?_tree (path : Path) :
    (past.tree tree).cell? path = (tree.cell? path).map past.cell :=
  Std.ExtTreeMap.getElem?_map

@[simp] theorem contains_tree (path : Path) : (past.tree tree).contains path = tree.contains path :=
  Std.ExtTreeMap.contains_map

theorem tree_ext {left right : Tree} (roles : left.role = right.role)
    (cells : ∀ path, left.cell? path = right.cell? path) : left = right := by
  obtain ⟨leftRole, leftKeys⟩ := left
  obtain ⟨rightRole, rightKeys⟩ := right
  obtain rfl : leftRole = rightRole := roles
  obtain rfl : leftKeys = rightKeys := Std.ExtTreeMap.ext_getElem? fun path => cells path
  rfl

@[simp] theorem ofRole_tree (role : Role) :
    Tree.ofRole (past.role role) = past.tree (.ofRole role) := by
  refine tree_ext rfl fun path => ?_
  rw [cell?_tree, Tree.cell?_ofRole, Tree.cell?_ofRole]
  split <;> simp

theorem update_tree (path : Path) {before after : Cell → Cell}
    (carried : ∀ cell, after (past.cell cell) = past.cell (before cell)) :
    (past.tree tree).update path after = past.tree (tree.update path before) := by
  refine tree_ext rfl fun other => ?_
  simp only [cell?_tree, Tree.cell?_update]
  split <;> simp [carried, Function.comp_def]

@[simp] theorem inheritsActive_tree (path : Path) :
    (past.tree tree).inheritsActive path = tree.inheritsActive path := by
  have closest : path.ancestry.findSome? (past.tree tree).cell? =
      (path.ancestry.findSome? tree.cell?).map past.cell := by
    rw [List.map_findSome?]
    exact congrArg (path.ancestry.findSome? ·) (funext fun above => past.cell?_tree tree above)
  simp [Tree.inheritsActive, closest, Function.comp_def]

@[simp] theorem ensure_tree (path : Path) :
    (past.tree tree).ensure path = past.tree (tree.ensure path) := by
  refine tree_ext rfl fun query => ?_
  have former := past.cell?_tree tree query
  rw [cell?_tree]
  unfold Tree.ensure
  simp only [contains_tree, inheritsActive_tree, Tree.cell?, Tree.getElem?_foldl_insert] at former ⊢
  split <;> simp [former]

@[simp] theorem subtree_tree (top : Path) : (past.tree tree).subtree top =
    (tree.subtree top).map fun entry => (entry.1, past.cell entry.2) := by
  simp only [Tree.subtree, Past.tree, Std.ExtTreeMap.toList_map, List.dropWhile_map,
    List.takeWhile_map]
  rfl

@[simp] theorem subtreePaths_tree (top : Path) :
    (past.tree tree).subtreePaths top = tree.subtreePaths top := by
  simp [Tree.subtreePaths, Function.comp_def]

@[simp] theorem descendants_tree (top : Path) : (past.tree tree).descendants top =
    (tree.descendants top).map fun entry => (entry.1, past.cell entry.2) := by
  simp only [Tree.descendants, subtree_tree, List.dropWhile_map]
  rfl

@[simp] theorem children_tree (top : Path) :
    (past.tree tree).children top = tree.children top := by
  simp [Tree.children, Function.comp_def]

@[simp] theorem erase_tree (path : Path) :
    (past.tree tree).erase path = past.tree (tree.erase path) := by
  refine tree_ext (by simp) fun query => ?_
  simp only [cell?_tree, Tree.cell?_erase]
  split <;> simp

@[simp] theorem isUnderKnown_tree (path : Path) :
    (past.tree tree).isUnderKnown path = tree.isUnderKnown path := by
  simp [Tree.isUnderKnown, Function.comp_def]

theorem pendingOf_tree (top : Path) (skipped : Option Path) (entries : List (Path × Cell)) :
    Tree.pendingOf top skipped (entries.map fun entry => (entry.1, past.cell entry.2)) =
      (Tree.pendingOf top skipped entries).map
        (List.map fun edge => (edge.1, past.key edge.2)) := by
  induction entries generalizing skipped with
  | nil => rfl
  | cons first rest ih =>
    obtain ⟨path, cell⟩ := first
    simp only [List.map_cons, Tree.pendingOf, known_cell, blocked_cell, pending_cell, ih]
    split
    · rfl
    split
    · rfl
    split
    · rfl
    · simp [Function.comp_def]

@[simp] theorem pending?_tree (top : Path) : (past.tree tree).pending? top =
    (tree.pending? top).map (List.map fun edge => (edge.1, past.key edge.2)) := by
  rw [Tree.pending?, subtree_tree, pendingOf_tree]
  rfl

theorem followingOf_tree (knownTop : Bool) (skipped : Option Path)
    (entries : List (Path × Cell)) :
    Tree.followingOf knownTop skipped (entries.map fun entry => (entry.1, past.cell entry.2)) =
      Tree.followingOf knownTop skipped entries := by
  induction entries generalizing skipped with
  | nil => rfl
  | cons first rest ih =>
    obtain ⟨path, cell⟩ := first
    simp only [List.map_cons, Tree.followingOf, known_cell, blocked_cell, propagated_cell, ih]
    rfl

@[simp] theorem following_tree (top : Path) :
    (past.tree tree).following top = tree.following top := by
  simp [Tree.following, followingOf_tree, Function.comp_def]

/-- A total over the keys that only looks at what is carried over unchanged. -/
theorem foldl_tree (measure : Cell → Nat) (same : ∀ cell, measure (past.cell cell) = measure cell) :
    (past.tree tree).keys.foldl (fun total _ cell => total + measure cell) 0 =
      tree.keys.foldl (fun total _ cell => total + measure cell) 0 := by
  simp only [Past.tree, Std.ExtTreeMap.foldl_eq_foldl_toList, Std.ExtTreeMap.toList_map,
    List.foldl_map, same]

@[simp] theorem edgeCount_tree : (past.tree tree).edgeCount = tree.edgeCount :=
  past.foldl_tree tree (fun cell => cell.waiting.size) fun cell => by simp

@[simp] theorem pendingWeight_tree : (past.tree tree).pendingWeight = tree.pendingWeight :=
  past.foldl_tree tree Cell.pendingWeight past.pendingWeight_cell

end trees

end ConceptLaws.Past
