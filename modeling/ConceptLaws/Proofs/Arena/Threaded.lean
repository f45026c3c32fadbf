import ConceptLaws.Proofs.Arena.Calls

/-! Arenas in words.
As long as no generation wraps around and there are indices left, an arena in words does what the
arena does that counts without bounds and lists its free slots: each call of the one is a call of
the other. What is stored can therefore be read off the calls, and no identifier is given out twice.
-/

namespace ConceptLaws

theorem SlotId.handle_injective : Function.Injective SlotId.handle := by
  intro left right same
  obtain ⟨index, generation⟩ := left
  obtain ⟨otherIndex, otherGeneration⟩ := right
  obtain ⟨indices, generations⟩ := Handle.mk.inj same
  obtain rfl := UInt32.toNat_inj.1 indices
  obtain rfl := UInt32.toNat_inj.1 generations
  rfl

namespace Arena

variable {α : Type} {arena : Arena α}

theorem liveCount_eq (arena : Arena α) :
    arena.liveCount = arena.slots.countP fun slot => slot.content.isSome := by
  unfold liveCount entries
  rw [List.length_filterMap_eq_countP, ← Array.countP_toList]
  conv_rhs => rw [← List.zipIdx_map_fst 0 arena.slots.toList, List.countP_map]
  refine List.countP_congr fun entry _ => ?_
  simp

/-- The count follows what is put in place of a slot. -/
theorem liveCount_setSlot {index : Nat} {before : Slot α}
    (found : arena.slots[index]? = some before) (slot : Slot α) :
    (arena.setSlot index slot).liveCount =
      arena.liveCount - (if before.content.isSome then 1 else 0) +
        if slot.content.isSome then 1 else 0 := by
  obtain ⟨inside, rfl⟩ := Array.getElem?_eq_some_iff.1 found
  rw [liveCount_eq, liveCount_eq]
  unfold setSlot
  rw [Array.setIfInBounds_def, dif_pos inside, Array.countP_set]

theorem liveCount_pos {handle : Handle} {content : α} (live : arena.get? handle = some content) :
    0 < arena.liveCount := by
  unfold liveCount
  exact List.length_pos_of_mem (mem_entries.2 live)

theorem Sound.liveCount_allocate (sound : arena.Sound) (content : α) :
    (arena.allocate content).2.liveCount = arena.liveCount + 1 := by
  unfold Arena.allocate
  cases free : arena.free with
  | nil =>
    rw [liveCount_eq, liveCount_eq]
    exact Array.countP_push
  | cons index rest =>
    obtain ⟨generation, vacant⟩ := sound.isEmpty index (by simp [free])
    exact liveCount_setSlot vacant _

theorem Sound.index_not_mem_free (sound : arena.Sound) {handle : Handle} {content : α}
    (live : arena.get? handle = some content) : handle.index ∉ arena.free := by
  intro member
  obtain ⟨generation, vacant⟩ := sound.isEmpty _ member
  rw [get?_eq_some_iff.1 live] at vacant
  simp at vacant

end Arena

/-- A slot, with its generation as a number. -/
def ThreadedSlot.slot {α : Type} (slot : ThreadedSlot α) : Slot α :=
  ⟨slot.content, slot.generation.toNat⟩

namespace ThreadedArena

variable {α : Type} {store later : ThreadedArena α} {arena : Arena α}

/-- The free slots as they are threaded, from the first one on. -/
inductive Threads (slots : Array (ThreadedSlot α)) : Option UInt32 → List Nat → Prop
  | done : Threads slots none []
  | link {index : UInt32} {slot : ThreadedSlot α} {rest : List Nat}
      (found : slots[index.toNat]? = some slot) (further : Threads slots slot.nextFree rest) :
      Threads slots (some index) (index.toNat :: rest)

/-- Only the slots on the thread matter. -/
theorem Threads.congr {slots others : Array (ThreadedSlot α)} {head : Option UInt32}
    {free : List Nat} (threads : Threads slots head free)
    (same : ∀ index ∈ free, others[index]? = slots[index]?) : Threads others head free := by
  induction threads with
  | done => exact .done
  | link found _ ih =>
    exact .link ((same _ List.mem_cons_self).trans found)
      (ih fun index member => same index (List.mem_cons_of_mem _ member))

/-- A slot is replaced that is not on the thread. -/
theorem Threads.setSlot {head : Option UInt32} {free : List Nat}
    (threads : Threads store.slots head free) {index : UInt32} (apart : index.toNat ∉ free)
    (slot : ThreadedSlot α) : Threads (store.setSlot index slot).slots head free := by
  refine threads.congr fun other member => ?_
  have different : index.toNat ≠ other := fun same => apart (same.symm ▸ member)
  exact Array.getElem?_setIfInBounds_ne different

/-- The same contents under the same generations, the same free slots, and their number. -/
structure Represents (store : ThreadedArena α) (arena : Arena α) : Prop where
  slots : store.slots.map ThreadedSlot.slot = arena.slots
  threads : Threads store.slots store.freeHead arena.free
  count : store.liveCount = arena.liveCount

theorem represents_empty : (empty : ThreadedArena α).Represents .empty :=
  ⟨Array.map_empty, .done, rfl⟩

/-- A live identifier has the generation of its slot. -/
theorem slot?_of_get? {id : SlotId} {content : α} (live : store.get? id = some content) :
    ∃ next, store.slot? id = some ⟨some content, id.generation, next⟩ ∧
      store.slots[id.index.toNat]? = some ⟨some content, id.generation, next⟩ := by
  unfold get? at live
  obtain ⟨slot, found, held⟩ := Option.bind_eq_some_iff.1 live
  obtain ⟨stored, generation, next⟩ := slot
  obtain rfl : stored = some content := held
  have current := found
  unfold slot? at current
  obtain ⟨there, same⟩ := Option.filter_eq_some_iff.1 current
  obtain rfl : generation = id.generation := beq_iff_eq.1 same
  exact ⟨next, found, there⟩

/-- Deallocating gives back what is stored. -/
theorem fst_deallocate (store : ThreadedArena α) (id : SlotId) :
    (store.deallocate id).1 = store.get? id := by
  unfold deallocate get?
  cases store.slot? id with
  | none => rfl
  | some slot =>
    obtain ⟨content, generation, next⟩ := slot
    cases content with
    | none => rfl
    | some content => rfl

/-- Deallocating a stale identifier changes nothing. -/
theorem deallocate_stale {id : SlotId} (stale : store.get? id = none) :
    store.deallocate id = (none, store) := by
  unfold get? at stale
  unfold deallocate
  split
  · rename_i found
    rw [found] at stale
    cases stale
  · rfl

theorem update_stale {id : SlotId} (stale : store.get? id = none) (change : α → α) :
    store.update id change = store := by
  unfold get? at stale
  unfold update
  split
  · rename_i found
    rw [found] at stale
    cases stale
  · rfl

namespace Represents

theorem size_eq (represents : store.Represents arena) : store.slots.size = arena.slots.size := by
  rw [← represents.slots, Array.size_map]

theorem getElem? (represents : store.Represents arena) (index : Nat) :
    store.slots[index]?.map ThreadedSlot.slot = arena.slots[index]? := by
  rw [← represents.slots, Array.getElem?_map]

theorem slot? (represents : store.Represents arena) (id : SlotId) :
    (store.slot? id).map ThreadedSlot.slot = arena.slot? id.handle := by
  unfold ThreadedArena.slot? Arena.slot?
  change _ = arena.slots[id.index.toNat]?.filter _
  rw [← represents.getElem?]
  cases store.slots[id.index.toNat]? with
  | none => rfl
  | some slot =>
    have current : (slot.slot.generation == id.handle.generation) =
        (slot.generation == id.generation) := by
      rw [Bool.eq_iff_iff, beq_iff_eq, beq_iff_eq]
      exact UInt32.toNat_inj
    simp only [Option.map_some, Option.filter_some, current]
    split
    · rfl
    · rfl

theorem get? (represents : store.Represents arena) (id : SlotId) :
    store.get? id = arena.get? id.handle := by
  unfold ThreadedArena.get? Arena.get?
  rw [← represents.slot?]
  cases store.slot? id with
  | none => rfl
  | some slot => rfl

theorem slots_setSlot (represents : store.Represents arena) (index : UInt32)
    (slot : ThreadedSlot α) : (store.setSlot index slot).slots.map ThreadedSlot.slot =
      (arena.setSlot index.toNat slot.slot).slots := by
  unfold ThreadedArena.setSlot Arena.setSlot
  rw [Array.map_setIfInBounds, represents.slots]

/-- The slot freed last is there and empty, so that allocating does not fail. -/
theorem allocate (represents : store.Represents arena) (sound : arena.Sound) (content : α)
    (room : store.slots.size < UInt32.size) : ∃ id later,
      store.allocate? content = some (id, later) ∧ id.handle = (arena.allocate content).1 ∧
        later.Represents (arena.allocate content).2 := by
  have grown := sound.liveCount_allocate content
  have count := (congrArg (· + 1) represents.count).trans grown.symm
  have threads := represents.threads
  unfold allocate?
  unfold Arena.allocate at count ⊢
  generalize front : store.freeHead = head at threads
  generalize order : arena.free = free at threads count
  cases threads with
  | done =>
    refine ⟨_, _, rfl, ?_, ?_, ?_, count⟩
    · unfold SlotId.handle
      rw [UInt32.toNat_ofNat_of_lt' room, represents.size_eq]
      rfl
    · rw [Array.map_push, represents.slots]
      rfl
    · exact .done
  | @link index slot rest found further =>
    obtain ⟨content, generation, next⟩ := slot
    obtain ⟨number, vacant⟩ := sound.isEmpty index.toNat (order.symm ▸ List.mem_cons_self)
    have here := represents.getElem? index.toNat
    rw [found, vacant] at here
    obtain ⟨rfl, rfl⟩ := Slot.mk.inj (Option.some.inj here)
    have apart : index.toNat ∉ rest := (List.nodup_cons.1 (order ▸ sound.nodup)).1
    dsimp only
    rw [found]
    refine ⟨_, _, rfl, ?_, ?_, ?_, count⟩
    · simp [SlotId.handle, vacant]
    · rw [vacant]
      exact represents.slots_setSlot index _
    · exact further.setSlot apart _

/-- A live slot is freed, and put in front of the thread. -/
theorem deallocate (represents : store.Represents arena) (sound : arena.Sound) (id : SlotId)
    (room : ∀ content, store.get? id = some content → id.generation.toNat + 1 < UInt32.size) :
    (store.deallocate id).2.Represents (arena.deallocate id.handle).2 := by
  have same := represents.get? id
  cases live : store.get? id with
  | none =>
    rw [deallocate_stale live]
    unfold Arena.deallocate
    rw [← same, live]
    exact represents
  | some content =>
    rw [live] at same
    obtain ⟨next, found, there⟩ := slot?_of_get? live
    unfold ThreadedArena.deallocate Arena.deallocate
    rw [found, ← same]
    have inside := (Array.getElem?_eq_some_iff.1 there).1
    have later : (id.generation + 1).toNat = id.generation.toNat + 1 := by
      rw [UInt32.toNat_add]
      exact Nat.mod_eq_of_lt (room content live)
    have counted := Arena.liveCount_setSlot (Arena.get?_eq_some_iff.1 same.symm)
      ⟨none, id.generation.toNat + 1⟩
    have rest := represents.threads.setSlot (sound.index_not_mem_free same.symm)
      ⟨none, id.generation + 1, store.freeHead⟩
    refine ⟨?_, .link (Array.getElem?_setIfInBounds_self_of_lt inside) rest, ?_⟩
    · refine (represents.slots_setSlot _ _).trans ?_
      unfold ThreadedSlot.slot
      rw [later]
      rfl
    · exact (congrArg (· - 1) represents.count).trans counted.symm

theorem update (represents : store.Represents arena) (sound : arena.Sound) (id : SlotId)
    (change : α → α) : (store.update id change).Represents (arena.update id.handle change) := by
  have same := represents.get? id
  cases live : store.get? id with
  | none =>
    rw [update_stale live]
    unfold Arena.update
    rw [← same, live]
    exact represents
  | some content =>
    rw [live] at same
    obtain ⟨next, found, -⟩ := slot?_of_get? live
    unfold ThreadedArena.update Arena.update
    rw [found, ← same]
    have counted := Arena.liveCount_setSlot (Arena.get?_eq_some_iff.1 same.symm)
      ⟨some (change content), id.generation.toNat⟩
    have positive := Arena.liveCount_pos same.symm
    refine ⟨represents.slots_setSlot _ _,
      represents.threads.setSlot (sound.index_not_mem_free same.symm) _, ?_⟩
    refine represents.count.trans (Eq.trans ?_ counted.symm)
    simp only [Option.isSome_some, if_true]
    omega

theorem deallocateAll (ids : List SlotId) : ∀ {store : ThreadedArena α} {arena : Arena α},
    store.Represents arena → arena.Sound →
      (∀ id ∈ ids, id.generation.toNat + 1 < UInt32.size) →
        (ids.foldl (fun store id => (store.deallocate id).2) store).Represents
          ((ids.map SlotId.handle).foldl (fun arena handle => (arena.deallocate handle).2)
            arena) := by
  induction ids with
  | nil => exact fun represents _ _ => represents
  | cons first rest ih =>
    exact fun represents sound room =>
      ih (represents.deallocate sound first fun _ _ => room first List.mem_cons_self)
        (sound.deallocate first.handle) fun id member => room id (List.mem_cons_of_mem first member)

/-- Both list what is live in the same order. -/
theorem entries (represents : store.Represents arena) (room : store.slots.size ≤ UInt32.size) :
    store.entries.map (fun entry => (entry.1.handle, entry.2)) = arena.entries := by
  unfold ThreadedArena.entries Arena.entries
  rw [← represents.slots, Array.toList_map, List.zipIdx_map, List.filterMap_map,
    List.map_filterMap]
  refine List.filterMap_congr fun entry listed => ?_
  obtain ⟨slot, index⟩ := entry
  have inside : index < store.slots.size := by
    have found := List.mem_zipIdx_iff_getElem?.1 listed
    rw [Array.getElem?_toList] at found
    exact (Array.getElem?_eq_some_iff.1 found).1
  have same : (UInt32.ofNat index).toNat = index := UInt32.toNat_ofNat_of_lt' (by omega)
  unfold SlotId.handle ThreadedSlot.slot
  simp [same, Function.comp_def]

theorem ids (represents : store.Represents arena) (room : store.slots.size ≤ UInt32.size) :
    store.ids.map SlotId.handle = arena.handles := by
  unfold ThreadedArena.ids Arena.handles
  rw [← represents.entries room, List.map_map, List.map_map]
  rfl

theorem clear (represents : store.Represents arena) (sound : arena.Sound)
    (room : store.slots.size ≤ UInt32.size)
    (fresh : ∀ id ∈ store.ids, id.generation.toNat + 1 < UInt32.size) :
    store.clear.Represents arena.clear := by
  unfold ThreadedArena.clear Arena.clear
  rw [← represents.ids room, ← List.map_reverse]
  exact represents.deallocateAll store.ids.reverse sound
    fun id member => fresh id (List.mem_reverse.1 member)

end Represents

/-! ## Sizes -/

theorem size_setSlot (store : ThreadedArena α) (index : UInt32) (slot : ThreadedSlot α) :
    (store.setSlot index slot).slots.size = store.slots.size := Array.size_setIfInBounds

theorem size_allocate? {content : α} {id : SlotId}
    (stored : store.allocate? content = some (id, later)) :
    store.slots.size ≤ later.slots.size := by
  unfold allocate? at stored
  split at stored
  · split at stored
    · obtain ⟨-, rfl⟩ := Prod.mk.inj (Option.some.inj stored)
      exact Nat.le_of_eq (store.size_setSlot _ _).symm
    · simp at stored
  · obtain ⟨-, rfl⟩ := Prod.mk.inj (Option.some.inj stored)
    simp

theorem size_deallocate (store : ThreadedArena α) (id : SlotId) :
    (store.deallocate id).2.slots.size = store.slots.size := by
  unfold deallocate
  split
  · exact store.size_setSlot _ _
  · rfl

theorem size_update (store : ThreadedArena α) (id : SlotId) (change : α → α) :
    (store.update id change).slots.size = store.slots.size := by
  unfold update
  split
  · exact store.size_setSlot _ _
  · rfl

theorem size_clear (store : ThreadedArena α) : store.clear.slots.size = store.slots.size := by
  unfold clear
  generalize store.ids.reverse = ids
  induction ids generalizing store with
  | nil => rfl
  | cons first rest ih => exact (ih _).trans (store.size_deallocate first)

/-! ## Any sequence of calls -/

/-- What may be done with an arena. -/
inductive Operation (α : Type) where
  | allocate (content : α)
  | deallocate (id : SlotId)
  | update (id : SlotId) (change : α → α)
  | clear

end ThreadedArena

open ThreadedArena ArenaCall

/-- An arena with the calls that were made, the last one first. -/
structure LoggedArena (α : Type) where
  arena : ThreadedArena α
  calls : List (ArenaCall SlotId α)

namespace LoggedArena

variable {α : Type} {logged later : LoggedArena α}

def empty : LoggedArena α := ⟨.empty, []⟩

def perform? (logged : LoggedArena α) : Operation α → Option (LoggedArena α)
  | .allocate content => (logged.arena.allocate? content).map fun (id, arena) =>
    ⟨arena, .allocated id content :: logged.calls⟩
  | .deallocate id => some ⟨(logged.arena.deallocate id).2, .deallocated id :: logged.calls⟩
  | .update id change =>
    some ⟨logged.arena.update id change, .updated id change :: logged.calls⟩
  | .clear => some ⟨logged.arena.clear, .cleared :: logged.calls⟩

/-- Performs operations until one fails; tells whether none did. -/
def performAll : List (Operation α) → LoggedArena α → Bool × LoggedArena α
  | [], logged => (true, logged)
  | operation :: rest, logged =>
    match logged.perform? operation with
    | none => (false, logged)
    | some later => performAll rest later

/-- How often a slot was freed. -/
def timesFreed (logged : LoggedArena α) (index : Nat) : Nat :=
  ArenaCall.timesFreed (fun id : SlotId => id.index.toNat) logged.calls index

/-- No generation has wrapped around, and there are indices for all slots. -/
structure Within (logged : LoggedArena α) : Prop where
  freed : ∀ index, logged.timesFreed index < UInt32.size
  room : logged.arena.slots.size < UInt32.size

/-- The arena is represented by one without bounds that is as the calls tell. -/
def Simulated (logged : LoggedArena α) : Prop :=
  ∃ arena : Arena α, arena.Recounts (logged.calls.map (rename SlotId.handle)) ∧
    logged.arena.Represents arena

theorem simulated_empty : (empty : LoggedArena α).Simulated :=
  ⟨.empty, Arena.recounts_empty, represents_empty⟩

/-- An operation adds a call, and takes no slot away. -/
theorem calls_perform? {operation : Operation α} (done : logged.perform? operation = some later) :
    (∃ call, later.calls = call :: logged.calls) ∧
      logged.arena.slots.size ≤ later.arena.slots.size := by
  cases operation with
  | allocate content =>
    obtain ⟨⟨id, arena⟩, stored, rfl⟩ := Option.map_eq_some_iff.1 done
    exact ⟨⟨_, rfl⟩, size_allocate? stored⟩
  | deallocate id =>
    obtain rfl := Option.some.inj done
    exact ⟨⟨_, rfl⟩, Nat.le_of_eq (size_deallocate _ _).symm⟩
  | update id change =>
    obtain rfl := Option.some.inj done
    exact ⟨⟨_, rfl⟩, Nat.le_of_eq (size_update _ _ _).symm⟩
  | clear =>
    obtain rfl := Option.some.inj done
    exact ⟨⟨_, rfl⟩, Nat.le_of_eq (size_clear _).symm⟩

theorem Within.before (within : later.Within) {operation : Operation α}
    (done : logged.perform? operation = some later) : logged.Within := by
  obtain ⟨⟨call, calls⟩, size⟩ := calls_perform? done
  refine ⟨fun index => ?_, Nat.lt_of_le_of_lt size within.room⟩
  have freed := within.freed index
  unfold timesFreed at freed ⊢
  rw [calls] at freed
  exact Nat.lt_of_le_of_lt (timesFreed_le_cons _ _ _ index) freed

theorem Within.start (operations : List (Operation α)) : ∀ {logged : LoggedArena α},
    (performAll operations logged).2.Within → logged.Within := by
  induction operations with
  | nil => exact fun within => within
  | cons first rest ih =>
    intro logged within
    unfold performAll at within
    cases done : logged.perform? first with
    | none =>
      rw [done] at within
      exact within
    | some later =>
      rw [done] at within
      exact (ih within).before done

/-- A live identifier has the generation that its slot has come to. -/
theorem generation_eq {arena : Arena α}
    (recounts : arena.Recounts (logged.calls.map (rename SlotId.handle)))
    (represents : logged.arena.Represents arena) {id : SlotId} {content : α}
    (live : logged.arena.get? id = some content) :
    id.generation.toNat = logged.timesFreed id.index.toNat := by
  have slot := Arena.get?_eq_some_iff.1 ((represents.get? id).symm.trans live)
  have generation := recounts.generations id.index.toNat
  rw [timesFreed_rename SlotId.handle_injective] at generation
  refine Eq.trans ?_ generation
  unfold Arena.generationAt
  change _ = (arena.slots[id.handle.index]?.map Slot.generation).getD 0
  rw [slot]
  rfl

theorem stored_eq {arena : Arena α}
    (recounts : arena.Recounts (logged.calls.map (rename SlotId.handle)))
    (represents : logged.arena.Represents arena) (id : SlotId) :
    logged.arena.get? id = stored logged.calls id := by
  rw [represents.get?, recounts.held, stored_rename SlotId.handle_injective]

/-- As long as nothing wraps around, no operation fails, and the arena stays represented. -/
theorem Simulated.perform (simulated : logged.Simulated) (within : logged.Within)
    (operation : Operation α) :
    ∃ later, logged.perform? operation = some later ∧ (later.Within → later.Simulated) := by
  obtain ⟨arena, recounts, represents⟩ := simulated
  cases operation with
  | allocate content =>
    obtain ⟨id, later, stored, same, still⟩ :=
      represents.allocate recounts.sound content within.room
    refine ⟨_, congrArg (Option.map _) stored, fun _ => ⟨_, ?_, still⟩⟩
    have further := recounts.allocate content
    rw [← same] at further
    exact further
  | deallocate id =>
    refine ⟨_, rfl, fun bounded => ⟨_, recounts.deallocate id.handle,
      represents.deallocate recounts.sound id fun content live => ?_⟩⟩
    have freed := bounded.freed id.index.toNat
    have held : stored logged.calls id = some content :=
      (stored_eq recounts represents id).symm.trans live
    have generation := generation_eq recounts represents live
    unfold timesFreed at freed generation
    simp only [ArenaCall.timesFreed, held, Option.isSome_some, and_self, if_true] at freed
    rw [generation]
    exact freed
  | update id change =>
    exact ⟨_, rfl, fun _ => ⟨_, recounts.update id.handle change,
      represents.update recounts.sound id change⟩⟩
  | clear =>
    refine ⟨_, rfl, fun bounded => ⟨_, recounts.clear,
      represents.clear recounts.sound (Nat.le_of_lt within.room) fun id listed => ?_⟩⟩
    have member : id.handle ∈ arena.handles.reverse := by
      rw [← represents.ids (Nat.le_of_lt within.room)]
      exact List.mem_reverse.2 (List.mem_map_of_mem listed)
    obtain ⟨content, found⟩ := arena.live_of_mem_reverse id.handle member
    have alive : logged.arena.get? id = some content := (represents.get? id).trans found
    have held : id ∈ live logged.calls := by
      rw [mem_live, ← stored_eq recounts represents, alive]
      rfl
    have counted : 0 < (live logged.calls).countP fun key =>
        key.index.toNat = id.index.toNat :=
      List.countP_pos_iff.2 ⟨id, held, decide_eq_true rfl⟩
    have freed := bounded.freed id.index.toNat
    have generation := generation_eq recounts represents alive
    unfold timesFreed at freed generation
    simp only [ArenaCall.timesFreed] at freed
    change id.generation.toNat + 1 < UInt32.size
    omega

/-- By induction on the operations. -/
theorem Simulated.performAll (operations : List (Operation α)) : ∀ {logged : LoggedArena α},
    logged.Simulated → (performAll operations logged).2.Within →
      (performAll operations logged).1 = true ∧ (performAll operations logged).2.Simulated := by
  induction operations with
  | nil => exact fun simulated _ => ⟨rfl, simulated⟩
  | cons first rest ih =>
    intro logged simulated within
    obtain ⟨later, done, further⟩ := simulated.perform within.start first
    unfold LoggedArena.performAll at within ⊢
    rw [done] at within ⊢
    exact ih (further within.start) within

/-- What is stored under which identifiers is what the calls tell. -/
structure Faithful (logged : LoggedArena α) : Prop where
  /-- No identifier is given out twice. -/
  distinct : (issued logged.calls).Nodup
  /-- What was stored last is found, until it is deallocated or cleared. -/
  found : ∀ id, logged.arena.get? id = stored logged.calls id
  /-- Deallocating gives it back. -/
  returned : ∀ id, (logged.arena.deallocate id).1 = stored logged.calls id
  /-- Deallocating a stale identifier changes nothing. -/
  stale : ∀ id, stored logged.calls id = none →
    logged.arena.deallocate id = (none, logged.arena)
  count : logged.arena.liveCount = (live logged.calls).length
  /-- The live identifiers are listed by index, each once. -/
  ordered : (logged.arena.entries.map fun entry => entry.1.index).Pairwise (· < ·)
  listed : ∀ id content, (id, content) ∈ logged.arena.entries ↔
    stored logged.calls id = some content
  /-- The thread runs through the empty slots, each once. -/
  threaded : ∃ free, Threads logged.arena.slots logged.arena.freeHead free ∧ free.Nodup ∧
    ∀ index, index ∈ free ↔ ∃ slot, logged.arena.slots[index]? = some slot ∧ slot.content = none

theorem Simulated.faithful (simulated : logged.Simulated) (within : logged.Within) :
    logged.Faithful := by
  obtain ⟨arena, recounts, represents⟩ := simulated
  have found := stored_eq recounts represents
  have room : logged.arena.slots.size ≤ UInt32.size := Nat.le_of_lt within.room
  refine ⟨?_, found, fun id => (logged.arena.fst_deallocate id).trans (found id),
    fun id none => deallocate_stale ((found id).trans none), ?_, ?_, fun id content => ?_,
    arena.free, represents.threads, recounts.sound.nodup, fun index => ?_⟩
  · have distinct := recounts.distinct
    rw [issued_rename] at distinct
    exact distinct.of_map
  · have counted := recounts.handles_perm.length_eq
    rw [live_rename SlotId.handle_injective, List.length_map] at counted
    rw [represents.count, ← counted]
    exact (List.length_map Prod.fst).symm
  · have ordered := arena.ordered_indices
    rw [← represents.ids room] at ordered
    unfold ThreadedArena.ids at ordered
    rw [List.map_map, List.map_map, List.pairwise_map] at ordered
    exact List.pairwise_map.2 (ordered.imp fun less => UInt32.lt_iff_toNat_lt.2 less)
  · rw [← found, represents.get?, ← Arena.mem_entries, ← represents.entries room, List.mem_map]
    constructor
    · exact fun listed => ⟨(id, content), listed, rfl⟩
    · rintro ⟨⟨other, stored⟩, listed, same⟩
      obtain ⟨handles, rfl⟩ := Prod.mk.inj same
      exact SlotId.handle_injective handles ▸ listed
  · have same := represents.getElem? index
    constructor
    · intro member
      obtain ⟨generation, vacant⟩ := recounts.sound.isEmpty index member
      rw [vacant] at same
      obtain ⟨slot, there, none⟩ := Option.map_eq_some_iff.1 same
      exact ⟨slot, there, congrArg Slot.content none⟩
    · rintro ⟨slot, there, none⟩
      refine recounts.vacant index slot.generation.toNat ?_
      rw [← same, there, ← none]
      rfl

/-- Whatever is done with an arena, nothing fails, and what is stored is what the calls tell, as
long as no slot is freed so often that its generation wraps around, and there are indices left. -/
theorem faithful_performAll (operations : List (Operation α))
    (freed : ∀ index, (performAll operations empty).2.timesFreed index < UInt32.size)
    (room : (performAll operations empty).2.arena.slots.size < UInt32.size) :
    (performAll operations (empty : LoggedArena α)).1 = true ∧
      (performAll operations (empty : LoggedArena α)).2.Faithful := by
  have within : (performAll operations (empty : LoggedArena α)).2.Within := ⟨freed, room⟩
  obtain ⟨done, simulated⟩ := simulated_empty.performAll operations within
  exact ⟨done, simulated.faithful within⟩

/-- A slot is freed and used again, and what was given out before is stale. -/
def reusing : List (Operation Nat) :=
  [.allocate 1, .allocate 2, .deallocate ⟨0, 0⟩, .allocate 3, .deallocate ⟨0, 0⟩,
    .update ⟨0, 1⟩ (· + 1), .clear, .allocate 5]

theorem calls_reusing : (performAll reusing empty).2.calls =
    [.allocated ⟨0, 2⟩ 5, .cleared, .updated ⟨0, 1⟩ (· + 1), .deallocated ⟨0, 0⟩,
      .allocated ⟨0, 1⟩ 3, .deallocated ⟨0, 0⟩, .allocated ⟨1, 0⟩ 2, .allocated ⟨0, 0⟩ 1] := rfl

/-- Three identifiers are freed, in all. -/
theorem freed_reusing (index : Nat) :
    (performAll reusing empty).2.timesFreed index < UInt32.size := by
  have few : (performAll reusing empty).2.timesFreed index ≤ 3 := by
    unfold timesFreed
    rw [calls_reusing]
    simp only [ArenaCall.timesFreed, live, issued, stored]
    simp [List.countP_cons]
    grind
  exact Nat.lt_of_le_of_lt few (by decide)

theorem faithful_performAll_reusing :
    (performAll reusing empty).1 = true ∧ (performAll reusing empty).2.Faithful ∧
      (performAll reusing empty).2.arena.entries = [(⟨0, 2⟩, 5)] := by
  obtain ⟨done, faithful⟩ := faithful_performAll reusing freed_reusing (by decide +kernel)
  exact ⟨done, faithful, by decide +kernel⟩

end LoggedArena

end ConceptLaws
