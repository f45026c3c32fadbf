import ConceptLaws.Proofs.Arena
import ConceptLaws.Proofs.Propagation.Section
import ConceptLaws.Propagation.DataTree

/-! Networks by their keys.
Each operation is described by what `tree?` and `cell?` answer afterwards, and operations on several
keys of a tree come apart into operations on one key each. -/

namespace ConceptLaws.Propagation.Network

/-! ## Single trees -/

@[simp] theorem tree?_updateTree (network : Network) (handle query : Handle)
    (change : Tree → Tree) :
    (network.updateTree handle change).tree? query =
      if query = handle then (network.tree? handle).map change else network.tree? query :=
  Arena.get?_update network.trees handle query change

@[simp] theorem tree?_updateCell (network : Network) (key : Address) (query : Handle)
    (change : Cell → Cell) :
    (network.updateCell key change).tree? query =
      if query = key.tree then (network.tree? key.tree).map fun tree => tree.update key.path change
      else network.tree? query :=
  network.tree?_updateTree key.tree query _

@[simp] theorem tree?_ensure (network : Network) (key : Address) (query : Handle) :
    (network.ensure key).tree? query =
      if query = key.tree then (network.tree? key.tree).map fun tree => tree.ensure key.path
      else network.tree? query :=
  network.tree?_updateTree key.tree query _

theorem updateTree_updateTree (network : Network) (handle : Handle) (first second : Tree → Tree) :
    (network.updateTree handle first).updateTree handle second =
      network.updateTree handle fun tree => second (first tree) := by
  simp only [updateTree, Arena.update_update]

theorem updateTree_congr {network : Network} {handle : Handle} {first second : Tree → Tree}
    (same : ∀ tree, network.tree? handle = some tree → first tree = second tree) :
    network.updateTree handle first = network.updateTree handle second := by
  simp only [updateTree, Arena.update_congr same]

theorem updateTree_congr_of_live {network : Network} {handle : Handle} {tree : Tree}
    (live : network.tree? handle = some tree) {first second : Tree → Tree}
    (same : first tree = second tree) :
    network.updateTree handle first = network.updateTree handle second := by
  refine updateTree_congr fun other found => ?_
  obtain rfl := Option.some.inj (live.symm.trans found)
  exact same

theorem updateTree_self {network : Network} {handle : Handle} {change : Tree → Tree}
    (same : ∀ tree, network.tree? handle = some tree → change tree = tree) :
    network.updateTree handle change = network := by
  simp only [updateTree, Arena.update_self same]

theorem ensureWith_eq (network : Network) (key : Address) (change : Cell → Cell) :
    network.ensureWith key change = (network.ensure key).updateCell key change := by
  simp only [ensureWith, ensure, updateCell, updateTree_updateTree]

/-- Steps on one tree, one by one. -/
theorem updateTree_foldl_step {α : Type} (step : Tree → α → Tree) (network : Network)
    (handle : Handle) (items : List α) :
    (network.updateTree handle fun tree => items.foldl step tree) =
      items.foldl (fun network item => network.updateTree handle fun tree => step tree item)
        network := by
  induction items generalizing network with
  | nil => exact updateTree_self fun _ _ => rfl
  | cons first rest ih =>
    simp only [List.foldl_cons]
    rw [← ih, updateTree_updateTree]

/-- Changes to keys of one tree, one by one. -/
theorem updateTree_foldl (network : Network) (handle : Handle) (paths : List Path)
    (change : Cell → Cell) :
    (network.updateTree handle fun tree =>
        paths.foldl (fun tree path => tree.update path change) tree) =
      paths.foldl (fun network path => network.updateCell ⟨handle, path⟩ change) network :=
  network.updateTree_foldl_step (fun tree path => tree.update path change) handle paths

/-- Changing a sub-tree is changing its keys one by one. -/
theorem updateTree_subtree (network : Network) (handle : Handle) (top : Path)
    (change : Cell → Cell) : ∃ paths : List Path,
      (network.updateTree handle fun tree =>
        (tree.subtreePaths top).foldl (fun tree path => tree.update path change) tree) =
          paths.foldl (fun network path => network.updateCell ⟨handle, path⟩ change) network := by
  cases live : network.tree? handle with
  | none => exact ⟨[], updateTree_self fun tree found => by simp [live] at found⟩
  | some tree =>
    refine ⟨tree.subtreePaths top, ?_⟩
    rw [← updateTree_foldl]
    exact updateTree_congr_of_live live rfl

/-! ## Single keys -/

theorem cell?_eq_some_iff {network : Network} {key : Address} {cell : Cell} :
    network.cell? key = some cell ↔
      ∃ tree, network.tree? key.tree = some tree ∧ tree.cell? key.path = some cell :=
  Option.bind_eq_some_iff

theorem cell?_of_tree? {network : Network} {key : Address} {tree : Tree}
    (live : network.tree? key.tree = some tree) : network.cell? key = tree.cell? key.path := by
  simp [cell?, live]

theorem cell?_at {network : Network} {handle : Handle} {tree : Tree}
    (live : network.tree? handle = some tree) (path : Path) :
    network.cell? ⟨handle, path⟩ = tree.cell? path := cell?_of_tree? live

@[simp] theorem cell?_updateCell (network : Network) (key query : Address)
    (change : Cell → Cell) :
    (network.updateCell key change).cell? query =
      if query = key then (network.cell? key).map change else network.cell? query := by
  unfold cell?
  rw [tree?_updateCell]
  by_cases sameTree : query.tree = key.tree
  · rw [if_pos sameTree, sameTree]
    cases live : network.tree? key.tree with
    | none => simp
    | some tree =>
      change (tree.update key.path change).cell? query.path = _
      rw [Tree.cell?_update]
      by_cases samePath : query.path = key.path
      · have same : query = key := by
          cases query
          cases key
          simp_all
        simp [same]
      · have different : query ≠ key := fun equal => samePath (equal ▸ rfl)
        simp [samePath, different]
  · have different : query ≠ key := fun equal => sameTree (equal ▸ rfl)
    rw [if_neg sameTree, if_neg different]

theorem updateCell_self {network : Network} {key : Address} {change : Cell → Cell}
    (same : ∀ cell, network.cell? key = some cell → change cell = cell) :
    network.updateCell key change = network := by
  refine updateTree_self fun tree live => Tree.ext_cell? rfl fun path => ?_
  rw [Tree.cell?_update]
  by_cases samePath : path = key.path
  · rw [if_pos samePath, samePath]
    cases found : tree.cell? key.path with
    | none => rfl
    | some cell => rw [Option.map_some, same cell (cell?_eq_some_iff.2 ⟨tree, live, found⟩)]
  · rw [if_neg samePath]

def edge? (network : Network) (waiter source : Address) : Option Edge :=
  network.cell? waiter >>= fun cell => cell.waiting[source]?

theorem edge?_eq_some_iff {network : Network} {waiter source : Address} {edge : Edge} :
    network.edge? waiter source = some edge ↔
      ∃ cell, network.cell? waiter = some cell ∧ cell.waiting[source]? = some edge :=
  Option.bind_eq_some_iff

/-- In every tree, every key stands below keys only. -/
def Rooted (network : Network) : Prop :=
  ∀ handle tree, network.tree? handle = some tree → tree.Rooted

theorem Rooted.isSome_cell? {network : Network} (rooted : network.Rooted) {key : Address}
    {cell : Cell} (found : network.cell? key = some cell) {above : Path}
    (within : key.path.isWithin above = true) :
    (network.cell? ⟨key.tree, above⟩).isSome = true := by
  obtain ⟨tree, live, present⟩ := cell?_eq_some_iff.1 found
  rw [cell?_at live]
  exact rooted key.tree tree live key.path cell present above within

theorem cell?_ensure_of_some {network : Network} (rooted : network.Rooted) (key : Address)
    {query : Address} {cell : Cell} (found : network.cell? query = some cell) :
    (network.ensure key).cell? query = some cell := by
  obtain ⟨tree, live, present⟩ := cell?_eq_some_iff.1 found
  rw [cell?_eq_some_iff, tree?_ensure]
  by_cases sameTree : query.tree = key.tree
  · rw [sameTree] at live
    refine ⟨tree.ensure key.path, by simp [sameTree, live], ?_⟩
    exact Tree.cell?_ensure_of_some (rooted _ tree live) present
  · exact ⟨tree, by simp [sameTree, live], present⟩

/-- A key was there before `ensure`, or it is a new ancestor of the one that was asked for. -/
theorem cell?_of_ensure {network : Network} (rooted : network.Rooted) {key query : Address}
    {cell : Cell} (found : (network.ensure key).cell? query = some cell) :
    network.cell? query = some cell ∨
      network.cell? query = none ∧ query.tree = key.tree ∧ key.path.isWithin query.path = true ∧
        ∃ active, cell = .fresh active := by
  obtain ⟨tree, live, present⟩ := cell?_eq_some_iff.1 found
  rw [tree?_ensure] at live
  by_cases sameTree : query.tree = key.tree
  · rw [if_pos sameTree, Option.map_eq_some_iff] at live
    obtain ⟨before, liveBefore, rfl⟩ := live
    have same : network.cell? query = before.cell? query.path :=
      cell?_of_tree? (sameTree ▸ liveBefore)
    rcases Tree.cell?_of_ensure (rooted _ before liveBefore) present with
      old | ⟨absent, within, new⟩
    · exact Or.inl (same.trans old)
    · exact Or.inr ⟨same.trans absent, sameTree, within, _, new⟩
  · rw [if_neg sameTree] at live
    exact Or.inl (cell?_eq_some_iff.2 ⟨tree, live, present⟩)

theorem cell?_ensure_self {network : Network} (rooted : network.Rooted) {key : Address}
    (live : (network.tree? key.tree).isSome) :
    ∃ cell, (network.ensure key).cell? key = some cell := by
  obtain ⟨tree, found⟩ := Option.isSome_iff_exists.1 live
  have after : (network.ensure key).tree? key.tree = some (tree.ensure key.path) := by
    simp [found]
  rw [cell?_of_tree? after, Tree.cell?_ensure (rooted _ tree found)]
  cases tree.cell? key.path with
  | none => simp
  | some cell => exact ⟨cell, rfl⟩

/-! ## Other parts -/

@[simp] theorem tree?_updateAgenda (network : Network) (change : Agenda → Agenda)
    (query : Handle) : (network.updateAgenda change).tree? query = network.tree? query := rfl

@[simp] theorem cell?_updateAgenda (network : Network) (change : Agenda → Agenda)
    (query : Address) : (network.updateAgenda change).cell? query = network.cell? query := rfl

@[simp] theorem tree?_updateCounts (network : Network) (change : Counts → Counts)
    (query : Handle) : (network.updateCounts change).tree? query = network.tree? query := rfl

@[simp] theorem cell?_updateCounts (network : Network) (change : Counts → Counts)
    (query : Address) : (network.updateCounts change).cell? query = network.cell? query := rfl

end ConceptLaws.Propagation.Network
