import ConceptLaws.Proofs.Decimal.Positional
import ConceptLaws.Proofs.Propagation.Composition
import ConceptLaws.Proofs.Propagation.Overwriting
import ConceptLaws.Proofs.Propagation.Symbol

/-! Numbered children.
A value that is added to a key goes to a new child, named by one more than the largest number among
the names of the children. Other names do not matter, and the parts of a symbol are read in the
order of the numbers, so values are read in the order in which they were added. The numbers end at
the largest index; there the next one starts over. -/

namespace ConceptLaws

namespace Propagation

/-! ## Trees -/

namespace Tree

variable {tree : Tree} {path query : Path} {value : Datum}

/-- A tree after a derived value was written. -/
def put (tree : Tree) (path : Path) (value : Datum) : Tree :=
  (tree.ensure path).update path fun cell => { cell.replace (some value) with locked := true }

/-- Adding a path adds nothing that it does not lie at or below. -/
theorem cell?_ensure_of_apart (apart : path.isWithin query = false) :
    (tree.ensure path).cell? query = tree.cell? query := by
  unfold ensure cell?
  rw [getElem?_foldl_insert, if_neg]
  intro missing
  have within := Path.mem_ancestry.1 ((List.takeWhile_sublist _).subset missing)
  simp [apart] at within

theorem valueAt_put (tree : Tree) (path query : Path) (value : Datum) :
    Network.valueAt (tree.put path value) query =
      if query = path then some value else Network.valueAt tree query := by
  unfold Network.valueAt put
  rw [cell?_update]
  split
  · rename_i same
    obtain ⟨cell, found⟩ := tree.cell?_ensure_self path
    rw [found]
    rfl
  · rcases tree.cell?_ensure_cases path query with same | ⟨absent, active, new⟩
    · rw [same]
    · rw [absent, new]
      rfl

theorem isSome_cell?_put_self (tree : Tree) (path : Path) (value : Datum) :
    ((tree.put path value).cell? path).isSome = true := by
  obtain ⟨cell, found⟩ := tree.cell?_ensure_self path
  unfold put
  rw [cell?_update, if_pos rfl, found]
  rfl

end Tree

namespace Network

/-! ## The next number -/

theorem foldl_max_le_iff {measure : Nat → Nat} {numbers : List Nat} {start bound : Nat} :
    numbers.foldl (fun largest number => max largest (measure number)) start ≤ bound ↔
      start ≤ bound ∧ ∀ number ∈ numbers, measure number ≤ bound := by
  induction numbers generalizing start with
  | nil => simp
  | cons first rest ih => simp [ih, and_assoc]

/-- There is room for so many more numbers above those of the children of a key. -/
def Room (tree : Tree) (top : Path) (count : Nat) : Prop :=
  count ≤ Decimal.wordCount ∧
    ∀ child ∈ tree.children top, ∀ number, pathNumber? child = some number →
      number + count < Decimal.wordCount

variable {tree : Tree} {top : Path} {value : Datum} {count : Nat}

theorem mem_childNumbers {number : Nat} :
    number ∈ (tree.children top).filterMap pathNumber? ↔
      ∃ child ∈ tree.children top, pathNumber? child = some number :=
  List.mem_filterMap

theorem lt_nextChildNumber (room : Room tree top (count + 1)) {child : Path}
    (member : child ∈ tree.children top) {number : Nat} (named : pathNumber? child = some number) :
    number < nextChildNumber tree top := by
  have upper := (foldl_max_le_iff.1 (Nat.le_refl (nextChildNumber tree top))).2 number
    (mem_childNumbers.2 ⟨child, member, named⟩)
  have small := room.2 child member number named
  rw [Nat.mod_eq_of_lt (by omega)] at upper
  omega

/-- The next number leaves room for one less. -/
theorem nextChildNumber_add_lt (room : Room tree top (count + 1)) :
    nextChildNumber tree top + count < Decimal.wordCount := by
  have bounded : nextChildNumber tree top ≤ Decimal.wordCount - (count + 1) := by
    refine foldl_max_le_iff.2 ⟨Nat.zero_le _, fun number member => ?_⟩
    obtain ⟨child, listed, named⟩ := mem_childNumbers.1 member
    have small := room.2 child listed number named
    rw [Nat.mod_eq_of_lt (by omega)]
    omega
  have enough := room.1
  omega

/-- The child that the next value goes to. -/
def nextChild (tree : Tree) (top : Path) : Path :=
  top.child (toString (nextChildNumber tree top))

theorem pathNumber?_child (top : Path) {number : Nat} (small : number < Decimal.wordCount) :
    pathNumber? (top.child (toString number)) = some number := by
  have letters : (toString number).toList = Decimal.digitList number := by
    rw [Nat.toString_eq_ofList_toDigits, String.toList_ofList]
    rfl
  simp only [pathNumber?, Path.child, List.getLast?_append, List.getLast?_singleton,
    Option.some_or, Option.bind_eq_bind, Option.bind_some, letters,
    Decimal.index?_digitList small]

theorem pathNumber?_nextChild (room : Room tree top (count + 1)) :
    pathNumber? (nextChild tree top) = some (nextChildNumber tree top) := by
  have small := nextChildNumber_add_lt room
  exact pathNumber?_child top (by omega)

/-- The next child is new: the name of any other numbered child is a smaller number. -/
theorem cell?_nextChild (room : Room tree top (count + 1)) :
    tree.cell? (nextChild tree top) = none := by
  rw [Option.eq_none_iff_forall_ne_some]
  intro cell found
  have listed : nextChild tree top ∈ tree.children top :=
    child_mem_children.2 (Option.isSome_iff_exists.2 ⟨cell, found⟩)
  exact Nat.lt_irrefl _ (lt_nextChildNumber room listed (pathNumber?_nextChild room))

/-! ## One more child -/

theorem mem_children_put {segment : String} {child : Path} :
    child ∈ (tree.put (top.child segment) value).children top ↔
      child = top.child segment ∨ child ∈ tree.children top := by
  by_cases same : child = top.child segment
  · subst same
    simp only [true_or, iff_true]
    exact child_mem_children.2 (tree.isSome_cell?_put_self _ value)
  · simp only [same, false_or, mem_children]
    refine and_congr_left fun ⟨below, _, childLength⟩ => ?_
    have apart : (top.child segment).isWithin child = false := by
      rw [Bool.eq_false_iff, ne_eq, Path.child_isWithin_iff]
      rintro (equal | above)
      · exact same equal
      · have shorter := (Path.isWithin_iff.1 above).length_le
        omega
    rw [Tree.put, Tree.cell?_update, if_neg same, Tree.cell?_ensure_of_apart apart]

theorem Room.put (room : Room tree top (count + 1)) (value : Datum) :
    Room (tree.put (nextChild tree top) value) top count := by
  refine ⟨by have enough := room.1; omega, fun child member number named => ?_⟩
  rcases mem_children_put.1 member with rfl | old
  · have same : nextChildNumber tree top = number :=
      Option.some.inj ((pathNumber?_nextChild room).symm.trans named)
    exact same ▸ nextChildNumber_add_lt room
  · have small := room.2 child old number named
    omega

theorem perm_numbered_put (room : Room tree top (count + 1)) (value : Datum) :
    (numbered (tree.put (nextChild tree top) value) top).Perm
      (numbered tree top ++ [(nextChildNumber tree top, nextChild tree top)]) := by
  have new : (nextChildNumber tree top, nextChild tree top) ∉ numbered tree top := by
    intro member
    obtain ⟨listed, named⟩ := mem_numbered.1 member
    exact Nat.lt_irrefl _ (lt_nextChildNumber room listed named)
  have distinct :
      (numbered tree top ++ [(nextChildNumber tree top, nextChild tree top)]).Nodup := by
    refine (nodup_numbered tree top).append (List.nodup_singleton _) ?_
    simpa using new
  refine (List.perm_ext_iff_of_nodup (nodup_numbered _ top) distinct).2 fun entry => ?_
  rw [List.mem_append, List.mem_singleton, mem_numbered, mem_numbered]
  constructor
  · rintro ⟨listed, named⟩
    rcases mem_children_put.1 listed with same | old
    · rw [same] at named
      have number := Option.some.inj ((pathNumber?_nextChild room).symm.trans named)
      exact Or.inr (Prod.ext number.symm same)
    · exact Or.inl ⟨old, named⟩
  · rintro (⟨old, named⟩ | rfl)
    · exact ⟨mem_children_put.2 (Or.inr old), named⟩
    · exact ⟨mem_children_put.2 (Or.inl rfl), pathNumber?_nextChild room⟩

/-- The new child comes last. -/
theorem mergeSort_numbered_put (room : Room tree top (count + 1)) (value : Datum) :
    (numbered (tree.put (nextChild tree top) value) top).mergeSort numberedBefore =
      (numbered tree top).mergeSort numberedBefore ++
        [(nextChildNumber tree top, nextChild tree top)] := by
  have sorted (entries : List (Nat × Path)) : (entries.mergeSort numberedBefore).Pairwise
      fun left right => numberedBefore left right = true := by
    refine List.pairwise_mergeSort ?_ numberedBefore_total entries
    exact fun _ _ _ => numberedBefore_trans
  have last : ((numbered tree top).mergeSort numberedBefore ++
      [(nextChildNumber tree top, nextChild tree top)]).Pairwise
        fun left right => numberedBefore left right = true := by
    refine List.pairwise_append.2 ⟨sorted _, List.pairwise_singleton _ _, ?_⟩
    intro entry member final single
    obtain rfl := List.mem_singleton.1 single
    obtain ⟨listed, named⟩ := mem_numbered.1 (List.mem_mergeSort.1 member)
    exact numberedBefore_iff.2 (Or.inl (lt_nextChildNumber room listed named))
  have same := (List.mergeSort_perm _ numberedBefore).trans ((perm_numbered_put room value).trans
    ((List.mergeSort_perm (numbered tree top) numberedBefore).symm.append_right _))
  exact same.eq_of_pairwise (fun _ _ _ _ before after => numberedBefore_antisymm before after)
    (sorted _) last

/-- The blocks of the new child follow those that were there. -/
theorem partBlocks_put (room : Room tree top (count + 1)) (value : Datum) :
    partBlocks (tree.put (nextChild tree top) value) top = partBlocks tree top ++ value.blocks := by
  have others : ∀ path, path ≠ nextChild tree top →
      blocksAt (tree.put (nextChild tree top) value) path = blocksAt tree path := by
    intro path different
    rw [blocksAt, Tree.valueAt_put, if_neg different, blocksAt]
  have own :
      blocksAt (tree.put (nextChild tree top) value) (nextChild tree top) = value.blocks := by
    rw [blocksAt, Tree.valueAt_put, if_pos rfl]
    rfl
  have upper := others top (top.child_ne _).symm
  have old : ((numbered tree top).mergeSort numberedBefore).flatMap
        (fun entry => blocksAt (tree.put (nextChild tree top) value) entry.2) =
      ((numbered tree top).mergeSort numberedBefore).flatMap
        fun entry => blocksAt tree entry.2 := by
    refine List.flatMap_congr fun entry member => others entry.2 fun same => ?_
    obtain ⟨listed, named⟩ := mem_numbered.1 (List.mem_mergeSort.1 member)
    have number := Option.some.inj ((pathNumber?_nextChild room).symm.trans (same ▸ named))
    exact absurd (lt_nextChildNumber room listed named) (by omega)
  rw [partBlocks_eq, partBlocks_eq, mergeSort_numbered_put room, List.flatMap_append, upper, old,
    List.flatMap_singleton, own, List.append_assoc]

/-! ## One value after another -/

/-- Adds values to a key, one after another. -/
def appendAll (network : Network) (key : Address) (values : List Datum) : Network :=
  values.foldl (fun network value => (network.appendChild key value).2) network

/-- A value is added: it is stored at a new child, whose number is larger than that of any child
there is, and no key that was there changes. -/
structure Adds (network : Network) (key : Address) (value : Datum) (later : Network) : Prop where
  stored : ∃ child number, network.appendChild key value = (some child, later) ∧
    child = key.path.child (toString number) ∧ pathNumber? child = some number ∧
    network.cell? ⟨key.tree, child⟩ = none ∧ later.value? ⟨key.tree, child⟩ = some value ∧
    ∀ tree, network.tree? key.tree = some tree → ∀ other ∈ tree.children key.path, ∀ smaller,
      pathNumber? other = some smaller → smaller < number
  kept : ∀ query cell, network.cell? query = some cell → later.cell? query = some cell

variable {network : Network} {key : Address}

theorem tree?_write {handle : Handle} {path : Path} (live : network.tree? handle = some tree)
    (derived : ¬network.Shielded ⟨handle, path⟩) (value : Datum) :
    (network.write ⟨handle, path⟩ value).2.tree? handle = some (tree.put path value) := by
  have free : tree.isUnderKnown path = false :=
    Bool.eq_false_iff.2 fun under => derived ((isUnderKnown_iff live).1 under)
  have noted (written : Network) : (written.noteChange ⟨handle, path⟩).tree? handle =
      written.tree? handle := by
    unfold noteChange
    split <;> rfl
  unfold write
  rw [live]
  dsimp only
  rw [if_neg (by simp [free]), noted]
  unfold ensureWith
  rw [tree?_updateTree, if_pos rfl, live]
  rfl

theorem Untouched.isKnown {later : Network} (untouched : network.Untouched later key) :
    later.isKnown key = network.isKnown key := by
  unfold Network.isKnown
  rcases untouched with same | ⟨absent, active, new⟩
  · rw [same]
  · rw [absent, new]
    rfl

/-- A key that is not there is not known, so only the keys above it can shield it. -/
theorem not_shielded_child {segment : String} (derived : ¬network.Shielded key)
    (absent : network.cell? ⟨key.tree, key.path.child segment⟩ = none) :
    ¬network.Shielded ⟨key.tree, key.path.child segment⟩ := by
  rintro ⟨above, within, known⟩
  rcases Path.child_isWithin_iff.1 within with rfl | upper
  · obtain ⟨cell, found, -⟩ := isKnown_iff.1 known
    simp [absent] at found
  · exact derived ⟨above, upper, known⟩

/-- What is written at a child shields no key above it. -/
theorem not_shielded_write {segment : String} (derived : ¬network.Shielded key) (value : Datum) :
    ¬(network.write ⟨key.tree, key.path.child segment⟩ value).2.Shielded key := by
  rintro ⟨above, within, known⟩
  refine derived ⟨above, within, ?_⟩
  rw [← known]
  refine (network.untouched_write value fun same => ?_).isKnown.symm
  have equal : above = key.path.child segment := congrArg Address.path same
  have shorter := (Path.isWithin_iff.1 within).length_le
  rw [equal, Path.length_child] at shorter
  omega

theorem cell?_nextChild_of_live (live : network.tree? key.tree = some tree)
    (room : Room tree key.path (count + 1)) :
    network.cell? ⟨key.tree, nextChild tree key.path⟩ = none :=
  (cell?_at live _).trans (cell?_nextChild room)

/-- The next child takes a value. -/
theorem fst_write_nextChild (live : network.tree? key.tree = some tree)
    (derived : ¬network.Shielded key) (room : Room tree key.path (count + 1)) (value : Datum) :
    (network.write ⟨key.tree, nextChild tree key.path⟩ value).1 = true :=
  (fst_write value).2
    ⟨live ▸ rfl, not_shielded_child derived (cell?_nextChild_of_live live room)⟩

theorem appendChild_eq (live : network.tree? key.tree = some tree)
    (derived : ¬network.Shielded key) (room : Room tree key.path (count + 1)) (value : Datum) :
    network.appendChild key value = (some (nextChild tree key.path),
      (network.write ⟨key.tree, nextChild tree key.path⟩ value).2) := by
  unfold appendChild
  rw [live]
  exact Prod.ext (if_pos (fst_write_nextChild live derived room value)) rfl

/-- After values were added the tree is live, nothing new shields the key, there is room for the
values to come, and the blocks of the key have the values at their end. -/
theorem run_appendAll (live : network.tree? key.tree = some tree) (derived : ¬network.Shielded key)
    (values : List Datum) (room : Room tree key.path (count + values.length)) :
    ∃ after, (network.appendAll key values).tree? key.tree = some after ∧
      ¬(network.appendAll key values).Shielded key ∧ Room after key.path count ∧
      partBlocks after key.path = partBlocks tree key.path ++ values.flatMap Datum.blocks := by
  induction values generalizing network tree with
  | nil => exact ⟨tree, live, derived, room, by simp⟩
  | cons first rest ih =>
    have room : Room tree key.path (count + rest.length + 1) := room
    have added := appendChild_eq live derived room first
    have next : (network.appendChild key first).2.tree? key.tree =
        some (tree.put (nextChild tree key.path) first) := by
      have absent := cell?_nextChild_of_live live room
      rw [added]
      exact tree?_write live (not_shielded_child derived absent) first
    have still : ¬(network.appendChild key first).2.Shielded key := by
      rw [added]
      exact not_shielded_write derived first
    obtain ⟨after, found, open_, left, blocks⟩ := ih next still (room.put first)
    refine ⟨after, found, open_, left, ?_⟩
    rw [blocks, partBlocks_put room, List.flatMap_cons, List.append_assoc]

end Network

end Propagation

end ConceptLaws
