import ConceptLaws.Proofs.Arena.Tidy
import Mathlib.Data.List.Nodup

/-! What was done with an arena.
What is stored under a key can be read off the calls that were made: it is what was allocated under
the key, with all changes since, unless the key was deallocated or everything was cleared. An arena
answers just that, whatever calls were made. The generation of a slot tells how often it was freed,
so that keys are never given out twice. -/

namespace ConceptLaws

inductive ArenaCall (Key α : Type) where
  | allocated (key : Key) (content : α)
  | deallocated (key : Key)
  | updated (key : Key) (change : α → α)
  | cleared

namespace ArenaCall

variable {Key Other α : Type}

/-- The keys given out by calls, of which the last comes first. -/
def issued : List (ArenaCall Key α) → List Key
  | [] => []
  | allocated key _ :: earlier => key :: issued earlier
  | deallocated _ :: earlier => issued earlier
  | updated _ _ :: earlier => issued earlier
  | cleared :: earlier => issued earlier

def rename (name : Key → Other) : ArenaCall Key α → ArenaCall Other α
  | allocated key content => allocated (name key) content
  | deallocated key => deallocated (name key)
  | updated key change => updated (name key) change
  | cleared => cleared

theorem issued_rename (name : Key → Other) (calls : List (ArenaCall Key α)) :
    issued (calls.map (rename name)) = (issued calls).map name := by
  induction calls with
  | nil => rfl
  | cons first rest ih => cases first <;> simp [issued, rename, ih]

/-- The calls that deallocate keys, after those made before. -/
def deallocateAll (calls : List (ArenaCall Key α)) (keys : List Key) : List (ArenaCall Key α) :=
  keys.foldl (fun calls key => deallocated key :: calls) calls

theorem issued_deallocateAll (keys : List Key) : ∀ calls : List (ArenaCall Key α),
    issued (deallocateAll calls keys) = issued calls := by
  induction keys with
  | nil => exact fun _ => rfl
  | cons first rest ih => exact fun calls => ih (deallocated first :: calls)

variable [DecidableEq Key] [DecidableEq Other]

/-- What was stored last under a key that was not deallocated or cleared since. -/
def stored : List (ArenaCall Key α) → Key → Option α
  | [], _ => none
  | allocated key content :: earlier, query =>
    if query = key then some content else stored earlier query
  | deallocated key :: earlier, query => if query = key then none else stored earlier query
  | updated key change :: earlier, query =>
    if query = key then (stored earlier query).map change else stored earlier query
  | cleared :: _, _ => none

/-- The keys under which something is stored. -/
def live (calls : List (ArenaCall Key α)) : List Key :=
  (issued calls).filter fun key => (stored calls key).isSome

/-- How often a slot was freed. -/
def timesFreed (slotOf : Key → Nat) : List (ArenaCall Key α) → Nat → Nat
  | [], _ => 0
  | allocated _ _ :: earlier, slot => timesFreed slotOf earlier slot
  | updated _ _ :: earlier, slot => timesFreed slotOf earlier slot
  | deallocated key :: earlier, slot => timesFreed slotOf earlier slot +
      if slotOf key = slot ∧ (stored earlier key).isSome = true then 1 else 0
  | cleared :: earlier, slot => timesFreed slotOf earlier slot +
      (live earlier).countP fun key => slotOf key = slot

/-- Only what was given out is stored. -/
theorem mem_issued_of_stored (calls : List (ArenaCall Key α)) {key : Key}
    (held : (stored calls key).isSome = true) : key ∈ issued calls := by
  induction calls with
  | nil => simp [stored] at held
  | cons first rest ih =>
    cases first with
    | allocated other content =>
      unfold stored at held
      unfold issued
      split at held
      · rename_i same
        exact same ▸ List.mem_cons_self
      · exact List.mem_cons_of_mem other (ih held)
    | deallocated other =>
      unfold stored at held
      split at held
      · simp at held
      · exact ih held
    | updated other change =>
      unfold stored at held
      split at held
      · exact ih (by simpa using held)
      · exact ih held
    | cleared => simp [stored] at held

theorem mem_live {calls : List (ArenaCall Key α)} {key : Key} :
    key ∈ live calls ↔ (stored calls key).isSome = true := by
  unfold live
  rw [List.mem_filter]
  exact ⟨And.right, fun held => ⟨mem_issued_of_stored calls held, held⟩⟩

theorem timesFreed_le_cons (slotOf : Key → Nat) (call : ArenaCall Key α)
    (calls : List (ArenaCall Key α)) (slot : Nat) :
    timesFreed slotOf calls slot ≤ timesFreed slotOf (call :: calls) slot := by
  cases call with
  | allocated key content => exact Nat.le_refl _
  | updated key change => exact Nat.le_refl _
  | deallocated key => exact Nat.le_add_right _ _
  | cleared => exact Nat.le_add_right _ _

/-! ## Other names for the keys -/

section Renaming

variable {name : Key → Other} (injective : Function.Injective name)

include injective

theorem stored_rename (calls : List (ArenaCall Key α)) (query : Key) :
    stored (calls.map (rename name)) (name query) = stored calls query := by
  induction calls with
  | nil => rfl
  | cons first rest ih => cases first <;> simp [stored, rename, injective.eq_iff, ih]

theorem live_rename (calls : List (ArenaCall Key α)) :
    live (calls.map (rename name)) = (live calls).map name := by
  unfold live
  rw [issued_rename, List.filter_map]
  refine congrArg _ (List.filter_congr fun key _ => ?_)
  exact congrArg Option.isSome (stored_rename injective calls key)

theorem timesFreed_rename (slotOf : Other → Nat) (calls : List (ArenaCall Key α)) (slot : Nat) :
    timesFreed slotOf (calls.map (rename name)) slot =
      timesFreed (fun key => slotOf (name key)) calls slot := by
  induction calls with
  | nil => rfl
  | cons first rest ih =>
    cases first with
    | allocated key content => exact ih
    | updated key change => exact ih
    | deallocated key => simp [timesFreed, rename, ih, stored_rename injective]
    | cleared =>
      change timesFreed slotOf (rest.map (rename name)) slot +
        (live (rest.map (rename name))).countP (fun key => slotOf key = slot) = _
      rw [ih, live_rename injective, List.countP_map]
      rfl

end Renaming

/-! ## Deallocating one after the other -/

theorem timesFreed_deallocateAll (slotOf : Key → Nat) (slot : Nat) (keys : List Key) :
    ∀ {calls : List (ArenaCall Key α)}, keys.Nodup → (∀ key ∈ keys, key ∈ live calls) →
      timesFreed slotOf (deallocateAll calls keys) slot =
        timesFreed slotOf calls slot + keys.countP fun key => slotOf key = slot := by
  induction keys with
  | nil => exact fun _ _ => rfl
  | cons first rest ih =>
    intro calls distinct alive
    obtain ⟨apart, distinctRest⟩ := List.nodup_cons.1 distinct
    have held := mem_live.1 (alive first List.mem_cons_self)
    have aliveRest : ∀ key ∈ rest, key ∈ live (deallocated first :: calls) := by
      intro key listed
      have different : key ≠ first := fun same => apart (same ▸ listed)
      have before := mem_live.1 (alive key (List.mem_cons_of_mem first listed))
      rw [mem_live]
      unfold stored
      rwa [if_neg different]
    refine (ih distinctRest aliveRest).trans ?_
    simp only [timesFreed, held, and_true, List.countP_cons, decide_eq_true_eq]
    omega

end ArenaCall

namespace Arena

open ArenaCall

variable {α : Type} {arena : Arena α} {calls : List (ArenaCall Handle α)}

/-- The generation of a slot; one that is not there yet starts with 0. -/
def generationAt (arena : Arena α) (index : Nat) : Nat :=
  (arena.slots[index]?.map Slot.generation).getD 0

/-- The arena is as the calls tell that were made. -/
structure Recounts (arena : Arena α) (calls : List (ArenaCall Handle α)) : Prop where
  sound : arena.Sound
  vacant : ∀ index generation, arena.slots[index]? = some ⟨none, generation⟩ →
    index ∈ arena.free
  held : ∀ handle, arena.get? handle = stored calls handle
  distinct : (issued calls).Nodup
  given : ∀ handle ∈ issued calls, arena.Issued handle
  generations : ∀ index, arena.generationAt index = timesFreed Handle.index calls index

theorem recounts_empty : (empty : Arena α).Recounts [] where
  sound := sound_empty
  vacant := by simp [empty]
  held := by
    intro handle
    simp [empty, get?, slot?, stored]
  distinct := List.nodup_nil
  given := by simp [issued]
  generations := by
    intro index
    simp [empty, generationAt, timesFreed]

namespace Recounts

theorem allocate (recounts : arena.Recounts calls) (content : α) :
    (arena.allocate content).2.Recounts
      (.allocated (arena.allocate content).1 content :: calls) where
  sound := recounts.sound.allocate content
  vacant := by
    intro index generation found
    rw [recounts.sound.getElem?_allocate] at found
    split at found
    · simp at found
    · rename_i elsewhere
      have before := recounts.vacant index generation found
      unfold Arena.allocate at elsewhere ⊢
      cases free : arena.free with
      | nil => simp [free] at before
      | cons first rest =>
        rw [free] at elsewhere before
        exact (List.mem_cons.1 before).resolve_left elsewhere
  held := by
    intro handle
    rw [recounts.sound.get?_allocate, recounts.held]
    rfl
  distinct := by
    refine List.nodup_cons.2 ⟨fun listed => ?_, recounts.distinct⟩
    exact recounts.sound.not_issued_allocate content (recounts.given _ listed)
  given := by
    intro handle listed
    rcases List.mem_cons.1 listed with rfl | before
    · have new : (arena.allocate content).2.get? (arena.allocate content).1 = some content := by
        rw [recounts.sound.get?_allocate, if_pos rfl]
      exact issued_of_get? new
    · exact (recounts.given handle before).allocate recounts.sound content
  generations := by
    intro index
    refine Eq.trans ?_ (recounts.generations index)
    unfold generationAt
    rw [recounts.sound.getElem?_allocate]
    split
    · rename_i same
      subst same
      unfold Arena.allocate
      cases free : arena.free with
      | nil => simp
      | cons first rest => rfl
    · rfl

theorem update (recounts : arena.Recounts calls) (handle : Handle) (change : α → α) :
    (arena.update handle change).Recounts (.updated handle change :: calls) where
  sound := recounts.sound.update handle change
  vacant := by
    unfold Arena.update
    cases live : arena.get? handle with
    | none => exact recounts.vacant
    | some content =>
      intro index generation found
      rw [getElem?_setSlot] at found
      split at found
      · simp at found
      · exact recounts.vacant index generation found
  held := by
    intro query
    simp only [get?_update, recounts.held, stored]
    split
    · rename_i same
      rw [same]
    · rfl
  distinct := recounts.distinct
  given := fun query listed => (recounts.given query listed).update handle change
  generations := by
    intro index
    refine Eq.trans ?_ (recounts.generations index)
    unfold Arena.update generationAt
    cases live : arena.get? handle with
    | none => rfl
    | some content =>
      dsimp only
      rw [getElem?_setSlot]
      split
      · rename_i here
        rw [here.1, get?_eq_some_iff.1 live]
        rfl
      · rfl

theorem deallocate (recounts : arena.Recounts calls) (handle : Handle) :
    (arena.deallocate handle).2.Recounts (.deallocated handle :: calls) where
  sound := recounts.sound.deallocate handle
  vacant := by
    unfold Arena.deallocate
    cases live : arena.get? handle with
    | none => exact recounts.vacant
    | some content =>
      intro index generation found
      have slot : (arena.setSlot handle.index ⟨none, handle.generation + 1⟩).slots[index]? =
        some ⟨none, generation⟩ := found
      rw [getElem?_setSlot] at slot
      split at slot
      · rename_i here
        exact here.1 ▸ List.mem_cons_self
      · exact List.mem_cons_of_mem _ (recounts.vacant index generation slot)
  held := by
    intro query
    simp only [get?_deallocate, recounts.held, stored]
  distinct := recounts.distinct
  given := fun query listed => (recounts.given query listed).deallocate handle
  generations := by
    intro index
    simp only [timesFreed, ← recounts.held, ← recounts.generations]
    unfold Arena.deallocate generationAt
    cases live : arena.get? handle with
    | none => simp
    | some content =>
      change ((arena.setSlot handle.index ⟨none, handle.generation + 1⟩).slots[index]?.map
        Slot.generation).getD 0 = _
      rw [getElem?_setSlot]
      by_cases here : index = handle.index
      · rw [if_pos ⟨here, index_lt_of_get? live⟩, here, get?_eq_some_iff.1 live]
        simp
      · simp [here, Ne.symm here]

theorem deallocateAll (handles : List Handle) : ∀ {arena : Arena α}
    {calls : List (ArenaCall Handle α)}, arena.Recounts calls →
      (handles.foldl (fun arena handle => (arena.deallocate handle).2) arena).Recounts
        (ArenaCall.deallocateAll calls handles) := by
  induction handles with
  | nil => exact fun recounts => recounts
  | cons first rest ih => exact fun recounts => ih (recounts.deallocate first)

/-- The live handles are the keys under which something is stored, in another order. -/
theorem handles_perm (recounts : arena.Recounts calls) : arena.handles.Perm (live calls) := by
  have distinct : arena.handles.Nodup :=
    List.Nodup.of_map Handle.index (arena.ordered_indices.imp fun ordered same => by omega)
  have distinctLive : (live calls).Nodup := recounts.distinct.filter _
  refine (List.perm_ext_iff_of_nodup distinct distinctLive).2 fun handle => ?_
  rw [mem_live, ← recounts.held, Option.isSome_iff_exists]
  unfold handles
  simp [mem_entries]

/-- Clearing deallocates all live handles. -/
theorem clear (recounts : arena.Recounts calls) : arena.clear.Recounts (.cleared :: calls) := by
  have all := recounts.deallocateAll arena.handles.reverse
  have perm := arena.handles.reverse_perm.trans recounts.handles_perm
  refine ⟨all.sound, all.vacant, fun handle => arena.get?_clear handle, recounts.distinct,
    fun handle listed => (recounts.given handle listed).clear, fun index => ?_⟩
  refine (all.generations index).trans ?_
  rw [timesFreed_deallocateAll _ _ _ (perm.nodup_iff.2 (recounts.distinct.filter _))
    fun handle listed => perm.mem_iff.1 listed, perm.countP_eq]
  rfl

end Recounts

end Arena

end ConceptLaws
