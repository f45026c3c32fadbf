import ConceptLaws.Proofs.Arena

/-! Tidy arenas.
In a tidy arena the slots in use come first, and the others are free in their order. An arena stays
tidy while what is removed was stored last. Clearing a tidy arena frees all slots in their order;
slots that were freed out of order before stay so. -/

namespace ConceptLaws.Arena

variable {α : Type}

/-- Whether something is stored in a slot. -/
def inUse (arena : Arena α) (index : Nat) : Bool :=
  arena.slots[index]?.any fun slot => slot.content.isSome

theorem inUse_iff {arena : Arena α} {index : Nat} : arena.inUse index = true ↔
    ∃ handle content, handle.index = index ∧ arena.get? handle = some content := by
  unfold inUse
  constructor
  · intro used
    cases found : arena.slots[index]? with
    | none => simp [found] at used
    | some slot =>
      obtain ⟨content, generation⟩ := slot
      cases content with
      | none => simp [found] at used
      | some content => exact ⟨⟨index, generation⟩, content, rfl, get?_eq_some_iff.2 found⟩
  · intro used
    obtain ⟨handle, content, rfl, live⟩ := used
    rw [get?_eq_some_iff.1 live]
    rfl

/-! ## The indices in use -/

theorem mem_indices {arena : Arena α} {index : Nat} :
    index ∈ arena.handles.map Handle.index ↔ arena.inUse index = true := by
  rw [inUse_iff]
  simp only [handles, List.map_map, List.mem_map, Prod.exists, mem_entries, Function.comp_apply]
  exact exists_congr fun handle => exists_congr fun content => and_comm

theorem ordered_indices (arena : Arena α) :
    (arena.handles.map Handle.index).Pairwise (· < ·) := by
  have indices : arena.handles.map Handle.index =
      (arena.slots.toList.zipIdx.filter fun entry => entry.1.content.isSome).map Prod.snd := by
    unfold handles entries
    induction arena.slots.toList.zipIdx with
    | nil => rfl
    | cons first rest ih =>
      obtain ⟨⟨content, generation⟩, index⟩ := first
      cases content <;> simpa using ih
  have all : (arena.slots.toList.zipIdx.map Prod.snd).Pairwise (· < ·) := by
    rw [List.zipIdx_map_snd]
    exact List.pairwise_lt_range'
  rw [indices]
  exact all.sublist (List.filter_sublist.map Prod.snd)

/-- The slots below a count are in use, and the others are free, in order. -/
structure Tidy (arena : Arena α) (count : Nat) : Prop where
  within : count ≤ arena.slots.size
  inUse : ∀ index, arena.inUse index = true ↔ index < count
  free : arena.free = List.range' count (arena.slots.size - count)

theorem Tidy.indices {arena : Arena α} {count : Nat} (tidy : arena.Tidy count) :
    arena.handles.map Handle.index = List.range count := by
  refine List.Perm.eq_of_pairwise (fun left right _ _ before after => ?_) arena.ordered_indices
    List.pairwise_lt_range ?_
  · omega
  · refine (List.perm_ext_iff_of_nodup ?_ List.nodup_range).2 fun index => ?_
    · exact arena.ordered_indices.imp fun ordered same => by omega
    · rw [mem_indices, tidy.inUse, List.mem_range]

/-! ## Operations -/

theorem inUse_setSlot {arena : Arena α} {index : Nat} (inside : index < arena.slots.size)
    (slot : Slot α) (other : Nat) : (arena.setSlot index slot).inUse other =
      if other = index then slot.content.isSome else arena.inUse other := by
  unfold Arena.inUse
  rw [getElem?_setSlot]
  by_cases same : other = index <;> simp [same, inside]

theorem size_setSlot (arena : Arena α) (index : Nat) (slot : Slot α) :
    (arena.setSlot index slot).slots.size = arena.slots.size := by
  simp [setSlot]

theorem size_deallocate (arena : Arena α) (handle : Handle) :
    (arena.deallocate handle).2.slots.size = arena.slots.size := by
  unfold deallocate
  split
  · rfl
  · exact size_setSlot ..

theorem inUse_deallocate {arena : Arena α} {handle : Handle} {content : α}
    (live : arena.get? handle = some content) (index : Nat) :
    (arena.deallocate handle).2.inUse index =
      if index = handle.index then false else arena.inUse index := by
  unfold deallocate
  rw [live]
  exact inUse_setSlot (index_lt_of_get? live) _ index

theorem free_deallocate {arena : Arena α} {handle : Handle} {content : α}
    (live : arena.get? handle = some content) :
    (arena.deallocate handle).2.free = handle.index :: arena.free := by
  unfold deallocate
  rw [live]

/-- What was stored last may be removed. -/
theorem Tidy.deallocate {arena : Arena α} {count : Nat} (tidy : arena.Tidy (count + 1))
    {handle : Handle} {content : α} (live : arena.get? handle = some content)
    (last : handle.index = count) : (arena.deallocate handle).2.Tidy count := by
  have within := tidy.within
  refine ⟨by rw [size_deallocate]; omega, fun index => ?_, ?_⟩
  · rw [inUse_deallocate live, last]
    by_cases same : index = count
    · simp [same]
    · rw [if_neg same, tidy.inUse]
      omega
  · rw [free_deallocate live, size_deallocate, tidy.free, last,
      show arena.slots.size - count = arena.slots.size - (count + 1) + 1 by omega,
      List.range'_succ]

theorem Tidy.allocate {arena : Arena α} {count : Nat} (tidy : arena.Tidy count) (content : α) :
    (arena.allocate content).1.index = count ∧
      (arena.allocate content).2.Tidy (count + 1) := by
  have within := tidy.within
  unfold Arena.allocate
  rw [tidy.free]
  cases remaining : arena.slots.size - count with
  | zero =>
    have full : count = arena.slots.size := by omega
    refine ⟨full.symm, ?_, fun index => ?_, ?_⟩
    · simp [full]
    · have before := tidy.inUse index
      simp only [Arena.inUse, Array.getElem?_push, List.range'_zero] at before ⊢
      by_cases same : index = arena.slots.size
      · simp [same, full]
      · rw [if_neg same, before]
        omega
    · simp [full]
  | succ room =>
    have inside : count < arena.slots.size := by omega
    refine ⟨rfl, ?_, fun index => ?_, ?_⟩
    · simp [List.range'_succ, setSlot]
      omega
    · have used := inUse_setSlot inside
        ⟨some content, (arena.slots[count]?.map Slot.generation).getD 0⟩ index
      refine (Bool.eq_iff_iff.1 used).trans ?_
      by_cases same : index = count
      · simp [same]
      · rw [if_neg same, tidy.inUse]
        omega
    · have rest : arena.slots.size - (count + 1) = room := by omega
      simp [List.range'_succ, setSlot, rest]

/-! ## Clearing -/

theorem foldl_deallocate (handles : List Handle) {arena : Arena α}
    (distinct : (handles.map Handle.index).Nodup)
    (live : ∀ handle ∈ handles, ∃ content, arena.get? handle = some content) :
    (handles.foldl (fun arena handle => (arena.deallocate handle).2) arena).free =
        (handles.map Handle.index).reverse ++ arena.free ∧
      ∀ index, (handles.foldl (fun arena handle => (arena.deallocate handle).2) arena).inUse index =
        (arena.inUse index && !(handles.map Handle.index).contains index) := by
  induction handles generalizing arena with
  | nil => simp
  | cons first rest ih =>
    rw [List.map_cons, List.nodup_cons] at distinct
    obtain ⟨outside, distinct⟩ := distinct
    obtain ⟨content, found⟩ := live first List.mem_cons_self
    have later : ∀ handle ∈ rest, ∃ content,
        (arena.deallocate first).2.get? handle = some content := by
      intro handle member
      have different : handle ≠ first := fun same =>
        outside (same ▸ List.mem_map_of_mem member)
      rw [get?_deallocate, if_neg different]
      exact live handle (List.mem_cons_of_mem first member)
    obtain ⟨free, used⟩ := ih distinct later
    refine ⟨?_, fun index => ?_⟩
    · rw [List.foldl_cons, free, free_deallocate found]
      simp
    · rw [List.foldl_cons, used, inUse_deallocate found]
      by_cases same : index = first.index <;> simp [same]

theorem size_clear (arena : Arena α) : arena.clear.slots.size = arena.slots.size := by
  unfold clear
  generalize arena.handles.reverse = handles
  induction handles generalizing arena with
  | nil => rfl
  | cons first rest ih => rw [List.foldl_cons, ih, size_deallocate]

theorem distinct_reverse (arena : Arena α) :
    (arena.handles.reverse.map Handle.index).Nodup := by
  rw [List.map_reverse, (List.reverse_perm _).nodup_iff]
  exact arena.ordered_indices.imp fun ordered same => by omega

theorem live_of_mem_reverse (arena : Arena α) : ∀ handle ∈ arena.handles.reverse,
    ∃ content, arena.get? handle = some content := by
  intro handle member
  obtain ⟨entry, listed, rfl⟩ := List.mem_map.1 (List.mem_reverse.1 member)
  exact ⟨entry.2, mem_entries.1 listed⟩

theorem Sound.clear {arena : Arena α} (sound : arena.Sound) : arena.clear.Sound := by
  unfold Arena.clear
  generalize arena.handles.reverse = handles
  induction handles generalizing arena with
  | nil => exact sound
  | cons first rest ih => exact ih (sound.deallocate first)

theorem Issued.clear {arena : Arena α} {query : Handle} (issued : arena.Issued query) :
    arena.clear.Issued query := by
  unfold Arena.clear
  generalize arena.handles.reverse = handles
  induction handles generalizing arena with
  | nil => exact issued
  | cons first rest ih => exact ih (issued.deallocate first)

/-- The slots in use are freed so that they come in their order again, in front of those that were
free. -/
theorem free_clear (arena : Arena α) :
    arena.clear.free = arena.handles.map Handle.index ++ arena.free := by
  rw [clear, (foldl_deallocate arena.handles.reverse arena.distinct_reverse
    arena.live_of_mem_reverse).1, List.map_reverse, List.reverse_reverse]

theorem inUse_clear (arena : Arena α) (index : Nat) : arena.clear.inUse index = false := by
  rw [clear, (foldl_deallocate arena.handles.reverse arena.distinct_reverse
    arena.live_of_mem_reverse).2, List.map_reverse]
  cases used : arena.inUse index with
  | false => rfl
  | true => simp [mem_indices.2 used]

theorem get?_clear (arena : Arena α) (handle : Handle) : arena.clear.get? handle = none := by
  cases live : arena.clear.get? handle with
  | none => rfl
  | some content =>
    have used := inUse_iff.2 ⟨handle, content, rfl, live⟩
    rw [inUse_clear] at used
    cases used

theorem Tidy.clear {arena : Arena α} {count : Nat} (tidy : arena.Tidy count) :
    arena.clear.Tidy 0 := by
  have within := tidy.within
  refine ⟨Nat.zero_le _, fun index => by simp [inUse_clear], ?_⟩
  have joined := List.range'_append_1 (s := 0) (m := count) (n := arena.slots.size - count)
  rw [Nat.zero_add, Nat.add_sub_cancel' within] at joined
  rw [free_clear, tidy.indices, tidy.free, size_clear, List.range_eq_range', Nat.sub_zero, joined]

end ConceptLaws.Arena
