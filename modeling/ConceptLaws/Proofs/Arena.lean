import ConceptLaws.Arena

/-! The arena as a map from handles.
Each operation is described by what `get?` answers afterwards. A handle is issued once its slot has
been given out under its generation; an issued handle stays issued, and what is stored later always
comes under a handle that was not issued before. -/

namespace ConceptLaws.Arena

variable {α : Type}

theorem get?_eq_some_iff {arena : Arena α} {handle : Handle} {content : α} :
    arena.get? handle = some content ↔
      arena.slots[handle.index]? = some ⟨some content, handle.generation⟩ := by
  unfold get? slot?
  cases found : arena.slots[handle.index]? with
  | none => simp
  | some slot =>
    obtain ⟨stored, generation⟩ := slot
    by_cases same : generation = handle.generation <;> simp [Option.filter, same]

theorem getElem?_setSlot (arena : Arena α) (index other : Nat) (slot : Slot α) :
    (arena.setSlot index slot).slots[other]? =
      if other = index ∧ index < arena.slots.size then some slot else arena.slots[other]? := by
  simp only [setSlot, Array.getElem?_setIfInBounds]
  by_cases same : index = other
  · subst same
    by_cases inside : index < arena.slots.size <;> simp [inside]
  · have different : other ≠ index := fun equal => same equal.symm
    simp [same, different]

theorem index_lt_of_get? {arena : Arena α} {handle : Handle} {content : α}
    (live : arena.get? handle = some content) : handle.index < arena.slots.size :=
  (Array.getElem?_eq_some_iff.1 (get?_eq_some_iff.1 live)).1

/-- Storing in the slot of a handle is seen under that handle alone, and nothing is there under
another generation. -/
theorem get?_setSlot {arena : Arena α} {handle : Handle} {content : Option α} {generation : Nat}
    (inside : handle.index < arena.slots.size) (query : Handle) :
    (arena.setSlot handle.index ⟨content, generation⟩).get? query =
      if query.index = handle.index then
        if query.generation = generation then content else none
      else arena.get? query := by
  unfold get? slot?
  rw [getElem?_setSlot]
  by_cases same : query.index = handle.index
  · by_cases current : generation = query.generation
    · simp [same, inside, Option.filter, current]
    · have stale : query.generation ≠ generation := fun equal => current equal.symm
      simp [same, inside, Option.filter, current, stale]
  · simp [same]

theorem eq_of_index_eq {arena : Arena α} {left right : Handle} {first second : α}
    (leftLive : arena.get? left = some first) (rightLive : arena.get? right = some second)
    (same : left.index = right.index) : left = right := by
  have leftSlot := get?_eq_some_iff.1 leftLive
  rw [same, get?_eq_some_iff.1 rightLive] at leftSlot
  obtain ⟨index, generation⟩ := left
  obtain ⟨otherIndex, otherGeneration⟩ := right
  simp_all

@[simp] theorem get?_update (arena : Arena α) (handle query : Handle) (change : α → α) :
    (arena.update handle change).get? query =
      if query = handle then (arena.get? handle).map change else arena.get? query := by
  unfold update
  cases live : arena.get? handle with
  | none =>
    by_cases same : query = handle
    · simp [same, live]
    · simp [same]
  | some content =>
    simp only [get?_setSlot (index_lt_of_get? live)]
    by_cases same : query = handle
    · simp [same]
    · by_cases sameIndex : query.index = handle.index
      · have stale : query.generation ≠ handle.generation := by
          intro sameGeneration
          apply same
          cases query
          cases handle
          simp_all
        have absent : arena.get? query = none := by
          rw [Option.eq_none_iff_forall_ne_some]
          intro other found
          exact same (eq_of_index_eq found live sameIndex)
        simp [same, sameIndex, stale, absent]
      · simp [same, sameIndex]

/-- The handle has been given out: its slot went past its generation, or holds it now. -/
def Issued (arena : Arena α) (handle : Handle) : Prop :=
  ∃ slot, arena.slots[handle.index]? = some slot ∧
    (handle.generation < slot.generation ∨
      handle.generation = slot.generation ∧ slot.content.isSome)

instance (arena : Arena α) (handle : Handle) : Decidable (arena.Issued handle) :=
  decidable_of_iff
    ((arena.slots[handle.index]?.any fun slot => decide (handle.generation < slot.generation ∨
      handle.generation = slot.generation ∧ slot.content.isSome)) = true)
    (by simp [Issued, Option.any_eq_true])

theorem issued_of_get? {arena : Arena α} {handle : Handle} {content : α}
    (live : arena.get? handle = some content) : arena.Issued handle :=
  ⟨_, get?_eq_some_iff.1 live, Or.inr ⟨rfl, rfl⟩⟩

/-- The free list names empty slots, each once. -/
structure Sound (arena : Arena α) : Prop where
  isEmpty : ∀ index ∈ arena.free, ∃ generation, arena.slots[index]? = some ⟨none, generation⟩
  nodup : arena.free.Nodup

theorem sound_empty : (empty : Arena α).Sound := ⟨by simp [empty], List.nodup_nil⟩

/-! ## Updates -/

theorem Sound.update {arena : Arena α} (sound : arena.Sound) (handle : Handle) (change : α → α) :
    (arena.update handle change).Sound := by
  unfold Arena.update
  cases live : arena.get? handle with
  | none => exact sound
  | some content =>
    refine ⟨fun index member => ?_, sound.nodup⟩
    obtain ⟨generation, vacant⟩ := sound.isEmpty index member
    have different : index ≠ handle.index := by
      rintro rfl
      rw [get?_eq_some_iff.1 live] at vacant
      simp at vacant
    refine ⟨generation, ?_⟩
    simpa only [getElem?_setSlot, different, false_and, ↓reduceIte] using vacant

theorem Issued.update {arena : Arena α} {query : Handle} (issued : arena.Issued query)
    (handle : Handle) (change : α → α) : (arena.update handle change).Issued query := by
  unfold Arena.update
  cases live : arena.get? handle with
  | none => exact issued
  | some content =>
    obtain ⟨slot, found, past⟩ := issued
    by_cases same : query.index = handle.index
    · rw [same, get?_eq_some_iff.1 live] at found
      obtain rfl := Option.some.inj found
      refine ⟨_, by rw [getElem?_setSlot]; exact if_pos ⟨same, index_lt_of_get? live⟩, ?_⟩
      simpa using past
    · exact ⟨slot, by simpa only [getElem?_setSlot, same, false_and, ↓reduceIte] using found, past⟩

theorem update_update (arena : Arena α) (handle : Handle) (first second : α → α) :
    (arena.update handle first).update handle second =
      arena.update handle fun content => second (first content) := by
  have seen := arena.get?_update handle handle first
  rw [if_pos rfl] at seen
  unfold update at seen ⊢
  cases live : arena.get? handle with
  | none => simp [live]
  | some content =>
    simp only [live, Option.map_some] at seen ⊢
    rw [seen]
    simp only [setSlot, Array.setIfInBounds_setIfInBounds]

/-- Only the change of what is stored matters. -/
theorem update_congr {arena : Arena α} {handle : Handle} {first second : α → α}
    (same : ∀ content, arena.get? handle = some content → first content = second content) :
    arena.update handle first = arena.update handle second := by
  unfold update
  cases live : arena.get? handle with
  | none => rfl
  | some content => simp only [same content live]

theorem update_self {arena : Arena α} {handle : Handle} {change : α → α}
    (same : ∀ content, arena.get? handle = some content → change content = content) :
    arena.update handle change = arena := by
  unfold update
  cases live : arena.get? handle with
  | none => rfl
  | some content =>
    have slot := get?_eq_some_iff.1 live
    obtain ⟨inside, stored⟩ := Array.getElem?_eq_some_iff.1 slot
    simp only [same content live, setSlot]
    rw [← stored, Array.setIfInBounds_def, dif_pos inside, Array.set_getElem_self]

/-! ## Allocation -/

/-- The slot that is used next is empty, or it is the one after the last. -/
theorem Sound.allocate_slot {arena : Arena α} (sound : arena.Sound) (content : α) :
    arena.slots[(arena.allocate content).1.index]? =
        some ⟨none, (arena.allocate content).1.generation⟩ ∨
      arena.slots.size = (arena.allocate content).1.index := by
  unfold allocate
  cases free : arena.free with
  | nil => exact Or.inr rfl
  | cons index rest =>
    obtain ⟨generation, vacant⟩ := sound.isEmpty index (by simp [free])
    exact Or.inl (by simp [vacant])

theorem Sound.not_issued_allocate {arena : Arena α} (sound : arena.Sound) (content : α) :
    ¬arena.Issued (arena.allocate content).1 := by
  rintro ⟨slot, found, past⟩
  rcases sound.allocate_slot content with vacant | fresh
  · rw [vacant] at found
    obtain rfl := Option.some.inj found
    simp at past
  · have inside := (Array.getElem?_eq_some_iff.1 found).1
    omega

/-- Afterwards the new slot holds the content, and the other slots are what they were. -/
theorem Sound.getElem?_allocate {arena : Arena α} (sound : arena.Sound) (content : α)
    (index : Nat) :
    (arena.allocate content).2.slots[index]? =
      if index = (arena.allocate content).1.index then
        some ⟨some content, (arena.allocate content).1.generation⟩
      else arena.slots[index]? := by
  unfold allocate
  cases free : arena.free with
  | nil =>
    simp only [Array.getElem?_push]
  | cons first rest =>
    obtain ⟨generation, vacant⟩ := sound.isEmpty first (by simp [free])
    have inside := (Array.getElem?_eq_some_iff.1 vacant).1
    change (arena.setSlot _ _).slots[index]? = _
    rw [getElem?_setSlot]
    by_cases same : index = first <;> simp [same, inside]

theorem Sound.get?_allocate {arena : Arena α} (sound : arena.Sound) (content : α)
    (query : Handle) :
    (arena.allocate content).2.get? query =
      if query = (arena.allocate content).1 then some content else arena.get? query := by
  have slots := sound.getElem?_allocate content query.index
  by_cases sameIndex : query.index = (arena.allocate content).1.index
  · rw [if_pos sameIndex] at slots
    by_cases same : query = (arena.allocate content).1
    · rw [if_pos same, get?_eq_some_iff, slots, same]
    · have stale : query.generation ≠ (arena.allocate content).1.generation := by
        intro sameGeneration
        apply same
        cases query
        simp_all
      rw [if_neg same]
      have absent : arena.get? query = none := by
        rw [Option.eq_none_iff_forall_ne_some]
        intro other found
        have old := get?_eq_some_iff.1 found
        rcases sound.allocate_slot content with vacant | fresh
        · rw [sameIndex, vacant] at old
          simp at old
        · have inside := index_lt_of_get? found
          omega
      rw [absent, Option.eq_none_iff_forall_ne_some]
      intro other found
      rw [get?_eq_some_iff, slots] at found
      simp only [Option.some.injEq, Slot.mk.injEq] at found
      exact stale found.2.symm
  · have different : query ≠ (arena.allocate content).1 := fun same => sameIndex (same ▸ rfl)
    rw [if_neg sameIndex] at slots
    rw [if_neg different]
    unfold get? slot?
    rw [slots]

theorem Sound.allocate {arena : Arena α} (sound : arena.Sound) (content : α) :
    (arena.allocate content).2.Sound := by
  have kept : ∀ index ∈ (arena.allocate content).2.free,
      index ∈ arena.free ∧ index ≠ (arena.allocate content).1.index := by
    have nodup := sound.nodup
    unfold Arena.allocate
    cases free : arena.free with
    | nil => simp
    | cons first rest =>
      rw [free, List.nodup_cons] at nodup
      intro index member
      refine ⟨List.mem_cons_of_mem first member, fun same => nodup.1 ?_⟩
      change index = first at same
      exact same ▸ member
  refine ⟨fun index member => ?_, ?_⟩
  · obtain ⟨generation, vacant⟩ := sound.isEmpty index (kept index member).1
    refine ⟨generation, ?_⟩
    rw [sound.getElem?_allocate, if_neg (kept index member).2, vacant]
  · have nodup := sound.nodup
    unfold Arena.allocate
    cases free : arena.free with
    | nil => simp
    | cons first rest =>
      rw [free] at nodup
      exact nodup.of_cons

theorem Issued.allocate {arena : Arena α} {query : Handle} (sound : arena.Sound)
    (issued : arena.Issued query) (content : α) : (arena.allocate content).2.Issued query := by
  obtain ⟨slot, found, past⟩ := issued
  have slots := sound.getElem?_allocate content query.index
  by_cases same : query.index = (arena.allocate content).1.index
  · rw [if_pos same] at slots
    refine ⟨_, slots, ?_⟩
    rcases sound.allocate_slot content with vacant | fresh
    · rw [same, vacant] at found
      obtain rfl := Option.some.inj found
      exact Or.inl (by simpa using past)
    · have inside := (Array.getElem?_eq_some_iff.1 found).1
      omega
  · rw [if_neg same] at slots
    exact ⟨slot, slots.trans found, past⟩

/-- No other handle is given out. -/
theorem Sound.issued_allocate {arena : Arena α} (sound : arena.Sound) {content : α} {query : Handle}
    (issued : (arena.allocate content).2.Issued query) :
    query = (arena.allocate content).1 ∨ arena.Issued query := by
  obtain ⟨slot, found, past⟩ := issued
  rw [sound.getElem?_allocate] at found
  split at found
  · rename_i same
    obtain rfl := Option.some.inj found
    rcases past with before | ⟨now, -⟩
    · refine Or.inr ?_
      unfold Arena.allocate at same before
      cases free : arena.free with
      | nil => simp [free] at before
      | cons first rest =>
        obtain ⟨generation, vacant⟩ := sound.isEmpty first (by simp [free])
        simp only [free, vacant, Option.map_some, Option.getD_some] at same before
        exact ⟨_, by rw [same, vacant], Or.inl before⟩
    · refine Or.inl ?_
      cases query
      simp_all
  · exact Or.inr ⟨slot, found, past⟩

/-! ## Deallocation -/

theorem get?_deallocate (arena : Arena α) (handle query : Handle) :
    (arena.deallocate handle).2.get? query =
      if query = handle then none else arena.get? query := by
  unfold deallocate
  cases live : arena.get? handle with
  | none =>
    by_cases same : query = handle
    · simp [same, live]
    · simp [same]
  | some content =>
    change (arena.setSlot handle.index ⟨none, handle.generation + 1⟩).get? query = _
    rw [get?_setSlot (index_lt_of_get? live)]
    by_cases sameIndex : query.index = handle.index
    · by_cases same : query = handle
      · simp [same]
      · have absent : arena.get? query = none := by
          rw [Option.eq_none_iff_forall_ne_some]
          intro other found
          exact same (eq_of_index_eq found live sameIndex)
        simp [same, sameIndex, absent]
    · have different : query ≠ handle := fun same => sameIndex (same ▸ rfl)
      simp [sameIndex, different]

theorem Sound.deallocate {arena : Arena α} (sound : arena.Sound) (handle : Handle) :
    (arena.deallocate handle).2.Sound := by
  unfold Arena.deallocate
  cases live : arena.get? handle with
  | none => exact sound
  | some content =>
    have inUse := get?_eq_some_iff.1 live
    have outside : handle.index ∉ arena.free := by
      intro member
      obtain ⟨generation, vacant⟩ := sound.isEmpty _ member
      rw [inUse] at vacant
      simp at vacant
    refine ⟨fun index member => ?_, List.nodup_cons.2 ⟨outside, sound.nodup⟩⟩
    change ∃ generation,
      (arena.setSlot handle.index ⟨none, handle.generation + 1⟩).slots[index]? = _
    rw [getElem?_setSlot]
    rcases List.mem_cons.1 member with same | later
    · exact ⟨handle.generation + 1, if_pos ⟨same, index_lt_of_get? live⟩⟩
    · obtain ⟨generation, vacant⟩ := sound.isEmpty index later
      have different : index ≠ handle.index := fun same => outside (same ▸ later)
      exact ⟨generation, by simpa only [different, false_and, ↓reduceIte] using vacant⟩

theorem Issued.deallocate {arena : Arena α} {query : Handle} (issued : arena.Issued query)
    (handle : Handle) : (arena.deallocate handle).2.Issued query := by
  unfold Arena.deallocate
  cases live : arena.get? handle with
  | none => exact issued
  | some content =>
    obtain ⟨slot, found, past⟩ := issued
    change (arena.setSlot handle.index ⟨none, handle.generation + 1⟩).Issued query
    by_cases same : query.index = handle.index
    · rw [same, get?_eq_some_iff.1 live] at found
      obtain rfl := Option.some.inj found
      refine ⟨_, by rw [getElem?_setSlot]; exact if_pos ⟨same, index_lt_of_get? live⟩, Or.inl ?_⟩
      rcases past with before | ⟨now, -⟩
      · exact Nat.lt_succ_of_lt before
      · simp [now]
    · exact ⟨slot, by simpa only [getElem?_setSlot, same, false_and, ↓reduceIte] using found, past⟩

theorem issued_deallocate {arena : Arena α} {handle query : Handle}
    (issued : (arena.deallocate handle).2.Issued query) : arena.Issued query := by
  unfold deallocate at issued
  cases live : arena.get? handle with
  | none => simpa only [live] using issued
  | some content =>
    simp only [live] at issued
    obtain ⟨slot, found, past⟩ := issued
    have held : (arena.setSlot handle.index ⟨none, handle.generation + 1⟩).slots[query.index]? =
        some slot := found
    rw [getElem?_setSlot] at held
    split at held
    · rename_i same
      obtain rfl := Option.some.inj held
      refine ⟨_, by rw [same.1]; exact get?_eq_some_iff.1 live, ?_⟩
      rcases past with before | ⟨-, present⟩
      · exact (Nat.lt_succ_iff_lt_or_eq.1 before).imp_right fun equal => ⟨equal, rfl⟩
      · simp at present
    · exact ⟨slot, held, past⟩

/-! ## The live handles -/

theorem mem_entries {arena : Arena α} {handle : Handle} {content : α} :
    (handle, content) ∈ arena.entries ↔ arena.get? handle = some content := by
  rw [get?_eq_some_iff, entries, List.mem_filterMap]
  constructor
  · rintro ⟨⟨slot, index⟩, member, shown⟩
    obtain ⟨stored, present, pair⟩ := Option.map_eq_some_iff.1 shown
    obtain ⟨rfl, rfl⟩ := Prod.mk.inj pair
    have found := List.mem_zipIdx_iff_getElem?.1 member
    rw [Array.getElem?_toList] at found
    rw [found]
    obtain ⟨kept, generation⟩ := slot
    simpa using present
  · intro found
    refine ⟨(⟨some content, handle.generation⟩, handle.index), ?_, rfl⟩
    rw [List.mem_zipIdx_iff_getElem?, Array.getElem?_toList, found]

end ConceptLaws.Arena
