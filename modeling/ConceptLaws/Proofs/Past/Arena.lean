import ConceptLaws.Proofs.Arena.Tidy

/-! An arena with a past.
In an arena whose slots have all been freed, a slot differs from a new one in its generation only. As
long as the free slots are taken in their order, such an arena answers as a new one does, with later
generations in its handles. -/

namespace ConceptLaws

/-- How often each slot was freed. Slots that were never used were not freed. -/
structure Past where
  used : Nat
  freed : Nat → Nat
  unused : ∀ index, used ≤ index → freed index = 0

namespace Past

variable (past : Past)

/-- The handle that is given out in place of one of a new arena. -/
def handle (handle : Handle) : Handle :=
  ⟨handle.index, past.freed handle.index + handle.generation⟩

@[simp] theorem index_handle (handle : Handle) : (past.handle handle).index = handle.index := rfl

@[simp] theorem generation_handle (handle : Handle) :
    (past.handle handle).generation = past.freed handle.index + handle.generation := rfl

theorem compare_handle (left right : Handle) :
    compare (past.handle left) (past.handle right) = compare left right := by
  obtain ⟨index, generation⟩ := left
  obtain ⟨otherIndex, otherGeneration⟩ := right
  change (compare index otherIndex).then (compare (past.freed index + generation)
      (past.freed otherIndex + otherGeneration)) =
    (compare index otherIndex).then (compare generation otherGeneration)
  by_cases same : index = otherIndex
  · subst same
    simp [Nat.compare_eq_ite_lt]
  · have different : compare index otherIndex ≠ .eq := fun equal =>
      same (Std.compare_eq_iff_eq.1 equal)
    cases order : compare index otherIndex with
    | lt => rfl
    | eq => exact (different order).elim
    | gt => rfl

variable {α : Type} (carry : α → α)

/-- A slot in place of one of a new arena; what it holds is carried over. -/
def slot (index : Nat) (slot : Slot α) : Slot α :=
  ⟨slot.content.map carry, past.freed index + slot.generation⟩

/-- The slots that are free and were not taken again yet. -/
def spare (size : Nat) : List Nat := List.range' size (past.used - size)

def slots (slots : Array (Slot α)) : Array (Slot α) :=
  slots.mapIdx (past.slot carry) ++
    ((past.spare slots.size).map fun index => Slot.mk none (past.freed index)).toArray

/-- The arena in place of a new one. -/
def arena (arena : Arena α) : Arena α :=
  ⟨past.slots carry arena.slots, arena.free ++ past.spare arena.slots.size⟩

theorem getElem?_slots (slots : Array (Slot α)) (index : Nat) :
    (past.slots carry slots)[index]? =
      if index < slots.size then slots[index]?.map (past.slot carry index)
      else if index < past.used then some ⟨none, past.freed index⟩ else none := by
  unfold Past.slots spare
  rw [Array.getElem?_append, Array.size_mapIdx]
  split
  · rw [Array.getElem?_mapIdx]
  simp only [List.getElem?_toArray, List.getElem?_map]
  split
  · rw [List.getElem?_range' (by omega), Option.map_some,
      show slots.size + 1 * (index - slots.size) = index by omega]
  · rw [List.getElem?_eq_none (by simp; omega), Option.map_none]

theorem lt_size_slots {slots : Array (Slot α)} {index : Nat} (inside : index < slots.size) :
    index < (past.slots carry slots).size := by
  simp [Past.slots]
  omega

theorem slots_setIfInBounds {slots : Array (Slot α)} {index : Nat} (inside : index < slots.size)
    (slot : Slot α) : (past.slots carry slots).setIfInBounds index (past.slot carry index slot) =
      past.slots carry (slots.setIfInBounds index slot) := by
  apply Array.ext_getElem?
  intro other
  have within := past.lt_size_slots carry inside
  simp only [Array.getElem?_setIfInBounds, getElem?_slots, Array.size_setIfInBounds]
  by_cases same : index = other
  · subst same
    simp [inside, within]
  · simp [same]

/-- A new slot is the first of those that were used before. -/
theorem slots_push_used {slots : Array (Slot α)} (within : slots.size < past.used)
    (slot : Slot α) :
    (past.slots carry slots).setIfInBounds slots.size (past.slot carry slots.size slot) =
      past.slots carry (slots.push slot) := by
  have inside : slots.size < (past.slots carry slots).size := by
    simp [Past.slots, spare]
    omega
  apply Array.ext_getElem?
  intro other
  simp only [Array.getElem?_setIfInBounds, getElem?_slots, Array.size_push, Array.getElem?_push,
    inside, if_true]
  grind

theorem slots_push_unused {slots : Array (Slot α)} (outside : past.used ≤ slots.size)
    (slot : Slot α) : (past.slots carry slots).push (past.slot carry slots.size slot) =
      past.slots carry (slots.push slot) := by
  have none : past.used - slots.size = 0 := by omega
  have noneAfter : past.used - (slots.size + 1) = 0 := by omega
  simp [Past.slots, spare, none, noneAfter]

theorem get?_arena (arena : Arena α) (handle : Handle) :
    (past.arena carry arena).get? (past.handle handle) = (arena.get? handle).map carry := by
  unfold Arena.get? Arena.slot? Past.arena
  rw [index_handle, getElem?_slots]
  split
  · cases arena.slots[handle.index]? with
    | none => rfl
    | some found =>
      by_cases same : found.generation = handle.generation <;>
        simp [Past.slot, Option.filter, same]
  · rename_i outside
    rw [Array.getElem?_eq_none (Nat.le_of_not_lt outside)]
    split
    · cases here : handle.generation <;> simp [Option.filter, here]
    · rfl

theorem update_arena (arena : Arena α) (handle : Handle) {before after : α → α}
    (carried : ∀ content, after (carry content) = carry (before content)) :
    (past.arena carry arena).update (past.handle handle) after =
      past.arena carry (arena.update handle before) := by
  unfold Arena.update
  rw [get?_arena]
  cases live : arena.get? handle with
  | none => rfl
  | some content =>
    have moved := past.slots_setIfInBounds carry (Arena.index_lt_of_get? live)
      ⟨some (before content), handle.generation⟩
    simpa [Past.slot, Past.arena, Arena.setSlot, carried] using moved

theorem deallocate_arena (arena : Arena α) (handle : Handle) :
    (past.arena carry arena).deallocate (past.handle handle) =
      ((arena.deallocate handle).1.map carry,
        past.arena carry (arena.deallocate handle).2) := by
  unfold Arena.deallocate
  rw [get?_arena]
  cases live : arena.get? handle with
  | none => rfl
  | some content =>
    have moved := past.slots_setIfInBounds carry (Arena.index_lt_of_get? live)
      ⟨none, handle.generation + 1⟩
    simpa [Past.slot, Past.arena, Arena.setSlot, Nat.add_assoc] using moved

theorem allocate_arena {arena : Arena α} (sound : arena.Sound) (content : α) :
    (past.arena carry arena).allocate (carry content) =
      (past.handle (arena.allocate content).1,
        past.arena carry (arena.allocate content).2) := by
  unfold Arena.allocate Past.arena
  cases listed : arena.free with
  | cons index rest =>
    obtain ⟨generation, vacant⟩ := sound.isEmpty index (by simp [listed])
    have inside := (Array.getElem?_eq_some_iff.1 vacant).1
    have before : (past.slots carry arena.slots)[index]? =
        some ⟨none, past.freed index + generation⟩ := by
      rw [getElem?_slots, if_pos inside, vacant]
      rfl
    have moved := past.slots_setIfInBounds carry inside ⟨some content, generation⟩
    simpa [before, vacant, Past.handle, Past.slot, Arena.setSlot] using moved
  | nil =>
    by_cases within : arena.slots.size < past.used
    · have room : past.used - arena.slots.size = past.used - (arena.slots.size + 1) + 1 := by
        omega
      have taken : past.spare arena.slots.size =
          arena.slots.size :: past.spare (arena.slots.size + 1) := by
        simp [spare, room, List.range'_succ]
      have before : (past.slots carry arena.slots)[arena.slots.size]? =
          some ⟨none, past.freed arena.slots.size⟩ := by
        rw [getElem?_slots, if_neg (Nat.lt_irrefl _), if_pos within]
      have moved := past.slots_push_used carry within ⟨some content, 0⟩
      simpa [taken, before, Past.handle, Past.slot, Arena.setSlot] using moved
    · have outside := Nat.le_of_not_lt within
      have spent (size : Nat) (above : past.used ≤ size) : past.spare size = [] := by
        simp [spare, above]
      have size : (past.slots carry arena.slots).size = arena.slots.size := by
        simp [Past.slots, spent _ outside]
      have moved := past.slots_push_unused carry outside ⟨some content, 0⟩
      simpa [spent _ outside, spent _ (Nat.le_succ_of_le outside), size, Past.handle, Past.slot,
        past.unused _ outside] using moved

theorem entries_arena (arena : Arena α) : (past.arena carry arena).entries =
    arena.entries.map fun entry => (past.handle entry.1, carry entry.2) := by
  have indexed : (arena.slots.toList.mapIdx (past.slot carry)).zipIdx =
      arena.slots.toList.zipIdx.map fun entry => (past.slot carry entry.2 entry.1, entry.2) := by
    apply List.ext_getElem?
    intro index
    simp only [List.getElem?_zipIdx, List.getElem?_mapIdx, List.getElem?_map, Option.map_map,
      Nat.zero_add]
    rfl
  have spared (start : Nat) :
      (((past.spare arena.slots.size).map fun index =>
        Slot.mk (none : Option α) (past.freed index)).zipIdx start).filterMap
          (fun entry => entry.1.content.map fun content =>
            (Handle.mk entry.2 entry.1.generation, content)) = [] := by
    rw [List.filterMap_eq_nil_iff]
    intro entry member
    obtain ⟨index, -, vacant⟩ := List.mem_map.1 (List.fst_mem_of_mem_zipIdx member)
    simp [← vacant]
  have listed {α : Type} (arena : Arena α) : arena.entries =
      arena.slots.toList.zipIdx.filterMap fun entry => entry.1.content.map fun content =>
        (Handle.mk entry.2 entry.1.generation, content) := rfl
  rw [listed, listed]
  unfold Past.arena Past.slots
  simp only [Array.toList_append, Array.toList_mapIdx, List.zipIdx_append, List.filterMap_append,
    spared, List.append_nil, indexed, List.filterMap_map, List.map_filterMap]
  congr 1
  funext entry
  cases content : entry.1.content <;> simp [Past.slot, content, Past.handle]

/-! ## Cleared arenas -/

/-- The past of an arena whose slots are all free. -/
def ofArena (arena : Arena α) : Past where
  used := arena.slots.size
  freed index := (arena.slots[index]?.map Slot.generation).getD 0
  unused index outside := by simp [Array.getElem?_eq_none outside]

/-- A tidy arena that was cleared stands in place of an empty one. -/
theorem arena_empty {arena : Arena α} (tidy : arena.Tidy 0) :
    (ofArena arena).arena carry .empty = arena := by
  have vacant (index : Nat) (inside : index < arena.slots.size) :
      arena.slots[index]? = some ⟨none, (ofArena arena).freed index⟩ := by
    have unused : arena.inUse index = false := by
      rw [Bool.eq_false_iff, Ne, tidy.inUse]
      exact Nat.not_lt_zero index
    unfold Arena.inUse at unused
    simp only [ofArena]
    cases found : arena.slots[index]? with
    | none => simp [inside] at found
    | some slot =>
      obtain ⟨content, generation⟩ := slot
      cases content with
      | none => rfl
      | some content => simp [found] at unused
  have slots : (ofArena arena).slots carry #[] = arena.slots := by
    apply Array.ext_getElem?
    intro index
    simp only [getElem?_slots, Array.size_empty, Nat.not_lt_zero, ↓reduceIte]
    split
    · rename_i inside
      exact (vacant index inside).symm
    · rename_i outside
      exact (Array.getElem?_eq_none (Nat.le_of_not_lt outside)).symm
  have free : [] ++ (ofArena arena).spare 0 = arena.free := tidy.free.symm
  unfold Past.arena
  rw [show (Arena.empty : Arena α).slots = #[] from rfl, slots]
  exact congrArg (Arena.mk arena.slots) free

end Past

end ConceptLaws
