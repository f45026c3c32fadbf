import ConceptLaws.Proofs.Propagation.Agenda
import ConceptLaws.Proofs.Propagation.Section
import Mathlib.Data.List.Nodup

/-! What a symbol is put together from.
A symbol is made of the values below it alone: a key without a value adds nothing, and the numbered
children of a part come in the order of their numbers, whatever else stands in the tree. -/

namespace ConceptLaws.Propagation

namespace Network

/-- The order of numbered children: by number, and by path where numbers are the same. -/
def numberedBefore (left right : Nat × Path) : Bool :=
  left.1 < right.1 || (left.1 == right.1 && (compare left.2 right.2).isLE)

theorem numberedBefore_iff {left right : Nat × Path} : numberedBefore left right = true ↔
    left.1 < right.1 ∨ left.1 = right.1 ∧ (compare left.2 right.2).isLE = true := by
  simp [numberedBefore]

theorem numberedBefore_trans {first second third : Nat × Path}
    (earlier : numberedBefore first second = true) (later : numberedBefore second third = true) :
    numberedBefore first third = true := by
  rw [numberedBefore_iff] at *
  rcases earlier with less | ⟨same, before⟩ <;> rcases later with lessLater | ⟨sameLater, after⟩
  · exact Or.inl (less.trans lessLater)
  · exact Or.inl (sameLater ▸ less)
  · exact Or.inl (same ▸ lessLater)
  · exact Or.inr ⟨same.trans sameLater, Std.TransCmp.isLE_trans before after⟩

theorem numberedBefore_total (left right : Nat × Path) :
    (numberedBefore left right || numberedBefore right left) = true := by
  rw [Bool.or_eq_true, numberedBefore_iff, numberedBefore_iff]
  rcases Nat.lt_trichotomy left.1 right.1 with less | same | more
  · exact Or.inl (Or.inl less)
  · have swapped : compare right.2 left.2 = (compare left.2 right.2).swap :=
      Std.OrientedCmp.eq_swap
    rw [swapped]
    cases compare left.2 right.2 <;> simp [same]
  · exact Or.inr (Or.inl more)

theorem numberedBefore_antisymm {left right : Nat × Path}
    (before : numberedBefore left right = true) (after : numberedBefore right left = true) :
    left = right := by
  rw [numberedBefore_iff] at *
  rcases before with less | ⟨same, before⟩ <;> rcases after with more | ⟨equal, after⟩
  · omega
  · omega
  · omega
  · exact Prod.ext same
      (Std.LawfulEqCmp.eq_of_compare (Std.OrientedCmp.isLE_antisymm before after))

/-- The value of a key of a tree. -/
def valueAt (tree : Tree) (path : Path) : Option Datum := tree.cell? path >>= Cell.value

/-- The numbered children of a part. -/
def numbered (tree : Tree) (top : Path) : List (Nat × Path) :=
  (tree.children top).filterMap fun child => (pathNumber? child).map fun number => (number, child)

def blocksAt (tree : Tree) (path : Path) : List String :=
  ((valueAt tree path).map Datum.blocks).getD []

theorem partBlocks_eq (tree : Tree) (top : Path) : partBlocks tree top = blocksAt tree top ++
    ((numbered tree top).mergeSort numberedBefore).flatMap fun entry => blocksAt tree entry.2 := rfl

theorem mem_children {tree : Tree} {top child : Path} : child ∈ tree.children top ↔
    (tree.cell? child).isSome ∧ child.isWithin top = true ∧ child ≠ top ∧
      child.length = top.length + 1 := by
  unfold Tree.children
  rw [List.mem_filter, List.mem_map, beq_iff_eq]
  constructor
  · rintro ⟨⟨⟨path, cell⟩, member, rfl⟩, length⟩
    obtain ⟨found, within, different⟩ := Tree.mem_descendants.1 member
    exact ⟨by simp [found], within, different, length⟩
  · rintro ⟨present, within, different, length⟩
    obtain ⟨cell, found⟩ := Option.isSome_iff_exists.1 present
    exact ⟨⟨(child, cell), Tree.mem_descendants.2 ⟨found, within, different⟩, rfl⟩, length⟩

theorem exists_of_mem_children {tree : Tree} {path child : Path}
    (member : child ∈ tree.children path) : ∃ segment, child = path.child segment := by
  obtain ⟨-, within, -, length⟩ := mem_children.1 member
  obtain ⟨suffix, rfl⟩ := Path.isWithin_iff.1 within
  rw [List.length_append, Nat.add_left_cancel_iff, List.length_eq_one_iff] at length
  obtain ⟨segment, rfl⟩ := length
  exact ⟨segment, rfl⟩

theorem child_mem_children {tree : Tree} {path : Path} {segment : String} :
    path.child segment ∈ tree.children path ↔ (tree.cell? (path.child segment)).isSome = true := by
  simp [mem_children, Path.child, Path.isWithin_iff]

theorem mem_numbered {tree : Tree} {top : Path} {entry : Nat × Path} :
    entry ∈ numbered tree top ↔
      entry.2 ∈ tree.children top ∧ pathNumber? entry.2 = some entry.1 := by
  unfold numbered
  rw [List.mem_filterMap]
  constructor
  · rintro ⟨child, member, named⟩
    obtain ⟨number, found, rfl⟩ := Option.map_eq_some_iff.1 named
    exact ⟨member, found⟩
  · rintro ⟨member, found⟩
    exact ⟨entry.2, member, by rw [found]; rfl⟩

theorem nodup_children (tree : Tree) (top : Path) : (tree.children top).Nodup := by
  have ordered : Tree.Ordered (tree.descendants top) :=
    (tree.ordered_subtree top).sublist (List.dropWhile_sublist _)
  refine List.Nodup.filter _ (List.Pairwise.map _ (fun left right before same => ?_) ordered)
  have reflexive : compare left.1 right.1 = .eq := Std.compare_eq_iff_eq.2 same
  rw [reflexive] at before
  cases before

theorem nodup_numbered (tree : Tree) (top : Path) : (numbered tree top).Nodup := by
  refine (nodup_children tree top).filterMap ?_
  intro left right entry leftNamed rightNamed
  obtain ⟨_, -, rfl⟩ := Option.map_eq_some_iff.1 leftNamed
  obtain ⟨_, -, same⟩ := Option.map_eq_some_iff.1 rightNamed
  exact (congrArg Prod.snd same).symm

/-- Children without a value add nothing. -/
theorem flatMap_blocksAt (tree : Tree) (entries : List (Nat × Path)) :
    (entries.flatMap fun entry => blocksAt tree entry.2) =
      (entries.filter fun entry => (valueAt tree entry.2).isSome).flatMap fun entry =>
        blocksAt tree entry.2 := by
  induction entries with
  | nil => rfl
  | cons first rest ih =>
    rw [List.flatMap_cons, ih]
    cases found : valueAt tree first.2 with
    | none =>
      rw [List.filter_cons_of_neg (by simp [found])]
      simp [blocksAt, found]
    | some value =>
      rw [List.filter_cons_of_pos (by simp [found]), List.flatMap_cons]

/-- The blocks of a part depend on the values at and below it alone. -/
theorem partBlocks_congr {tree other : Tree} {top : Path}
    (same : ∀ path, path.isWithin top = true → valueAt tree path = valueAt other path) :
    partBlocks tree top = partBlocks other top := by
  have blocks : ∀ path, path.isWithin top = true → blocksAt tree path = blocksAt other path :=
    fun path within => by rw [blocksAt, blocksAt, same path within]
  have members (entry : Nat × Path) :
      entry ∈ (numbered tree top).filter (fun entry => (valueAt tree entry.2).isSome) ↔
        entry ∈ (numbered other top).filter fun entry => (valueAt other entry.2).isSome := by
    have present {tree : Tree} (valued : (valueAt tree entry.2).isSome = true) :
        (tree.cell? entry.2).isSome := by
      unfold valueAt at valued
      cases found : tree.cell? entry.2 with
      | none => simp [found] at valued
      | some cell => rfl
    simp only [List.mem_filter, mem_numbered, mem_children]
    constructor
    · rintro ⟨⟨⟨-, within, shape⟩, number⟩, valued⟩
      rw [same _ within] at valued
      exact ⟨⟨⟨present valued, within, shape⟩, number⟩, valued⟩
    · rintro ⟨⟨⟨-, within, shape⟩, number⟩, valued⟩
      rw [← same _ within] at valued
      exact ⟨⟨⟨present valued, within, shape⟩, number⟩, valued⟩
  have sorted (tree : Tree) : (((numbered tree top).mergeSort numberedBefore).filter
      fun entry => (valueAt tree entry.2).isSome).Pairwise
        fun left right => numberedBefore left right = true := by
    refine List.Pairwise.filter _ (List.pairwise_mergeSort ?_ numberedBefore_total _)
    exact fun _ _ _ => numberedBefore_trans
  have unsorted (tree : Tree) := (List.mergeSort_perm (numbered tree top) numberedBefore).filter
    fun entry => (valueAt tree entry.2).isSome
  -- Both lists are sorted and hold the same entries, so they are the same.
  have listed : ((numbered tree top).mergeSort numberedBefore).filter
        (fun entry => (valueAt tree entry.2).isSome) =
      ((numbered other top).mergeSort numberedBefore).filter
        fun entry => (valueAt other entry.2).isSome := by
    have shared := (List.perm_ext_iff_of_nodup ((nodup_numbered tree top).filter _)
      ((nodup_numbered other top).filter _)).2 members
    exact (((unsorted tree).trans shared).trans (unsorted other).symm).eq_of_pairwise
      (fun _ _ _ _ before after => numberedBefore_antisymm before after) (sorted tree)
      (sorted other)
  rw [partBlocks_eq, partBlocks_eq, blocks top (Path.isWithin_refl top), flatMap_blocksAt tree,
    flatMap_blocksAt other, listed]
  congr 1
  refine List.flatMap_congr fun entry member => blocks entry.2 ?_
  obtain ⟨inside, -⟩ := List.mem_filter.1 member
  exact (mem_children.1 (mem_numbered.1 ((List.mergeSort_perm _ _).mem_iff.1 inside)).1).2.1

/-- A symbol depends on the values below it alone. -/
theorem renderSymbol_congr {tree other : Tree}
    (same : ∀ path, path.isBelow symbolPath = true → valueAt tree path = valueAt other path) :
    renderSymbol tree = renderSymbol other := by
  unfold renderSymbol
  congr 1
  refine List.map_congr_left fun part _ => ?_
  rw [partBlocks_congr fun path within => same path ?_]
  have below : (symbolPath.child part.name).isWithin symbolPath = true :=
    Path.isWithin_child ..
  rw [Path.isBelow, Bool.and_eq_true, bne_iff_ne]
  refine ⟨Path.isWithin_trans within below, ?_⟩
  rintro rfl
  have shorter := (Path.isWithin_iff.1 within).length_le
  simp [Path.child, symbolPath] at shorter

end Network

end ConceptLaws.Propagation
