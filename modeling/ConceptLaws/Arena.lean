import Std.Data.ExtTreeMap

/-! A store with generations.
A handle names a slot and the generation it was issued for. Freeing a slot advances its generation,
so a handle that was kept never reaches what the slot holds later. The slot freed last is used
first. -/

namespace ConceptLaws

structure Handle where
  index : Nat
  generation : Nat
deriving Repr, DecidableEq, Inhabited

namespace Handle

instance : Ord Handle where
  compare := compareLex (compareOn index) (compareOn generation)

instance : Std.TransOrd Handle :=
  inferInstanceAs (Std.TransCmp (compareLex (compareOn index) (compareOn generation)))

instance : Std.LawfulEqOrd Handle where
  compare_self := (inferInstance : Std.ReflCmp
    (compareLex (compareOn index) (compareOn generation))).compare_self
  eq_of_compare {left right} same := by
    obtain ⟨indices, generations⟩ := Ordering.then_eq_eq.1 same
    cases left
    cases right
    simp_all [compareOn]

def display (handle : Handle) : String := "dep#" ++ toString handle.index

end Handle

structure Slot (α : Type) where
  content : Option α
  generation : Nat
deriving Repr

/-- `free` lists the empty slots, the one freed last in front. -/
structure Arena (α : Type) where
  slots : Array (Slot α)
  free : List Nat
deriving Repr

namespace Arena

variable {α : Type}

def empty : Arena α := ⟨#[], []⟩

instance : Inhabited (Arena α) := ⟨empty⟩

def slot? (arena : Arena α) (handle : Handle) : Option (Slot α) :=
  arena.slots[handle.index]?.filter fun slot => slot.generation == handle.generation

/-- What is stored under a handle, while it is live. -/
def get? (arena : Arena α) (handle : Handle) : Option α :=
  (arena.slot? handle).bind Slot.content

def contains (arena : Arena α) (handle : Handle) : Bool := (arena.get? handle).isSome

def setSlot (arena : Arena α) (index : Nat) (slot : Slot α) : Arena α :=
  { arena with slots := arena.slots.setIfInBounds index slot }

/-- Stores a value in the slot freed last, or in a new one. -/
def allocate (arena : Arena α) (content : α) : Handle × Arena α :=
  match arena.free with
  | index :: rest =>
    let generation := (arena.slots[index]?.map Slot.generation).getD 0
    (⟨index, generation⟩, { arena.setSlot index ⟨some content, generation⟩ with free := rest })
  | [] =>
    (⟨arena.slots.size, 0⟩, { arena with slots := arena.slots.push ⟨some content, 0⟩ })

/-- Frees the slot of a live handle; a stale one changes nothing. -/
def deallocate (arena : Arena α) (handle : Handle) : Option α × Arena α :=
  match arena.get? handle with
  | none => (none, arena)
  | some content =>
    (some content,
      { arena.setSlot handle.index ⟨none, handle.generation + 1⟩ with
        free := handle.index :: arena.free })

/-- Changes what is stored under a live handle. -/
def update (arena : Arena α) (handle : Handle) (change : α → α) : Arena α :=
  match arena.get? handle with
  | none => arena
  | some content => arena.setSlot handle.index ⟨some (change content), handle.generation⟩

/-- The live handles with what they hold, by index. -/
def entries (arena : Arena α) : List (Handle × α) :=
  arena.slots.toList.zipIdx.filterMap fun (slot, index) =>
    slot.content.map fun content => (⟨index, slot.generation⟩, content)

def handles (arena : Arena α) : List Handle := arena.entries.map Prod.fst

def liveCount (arena : Arena α) : Nat := arena.entries.length

/-- Frees every slot, the last one first. -/
def clear (arena : Arena α) : Arena α :=
  arena.handles.reverse.foldl (fun arena handle => (arena.deallocate handle).2) arena

end Arena

end ConceptLaws

/-! An arena in words.
The free slots are threaded: each names the one that was freed before it, and the arena the one
freed last. Indices and generations are words, of which the generations wrap around. How many slots
are in use is counted beside. -/

namespace ConceptLaws

structure SlotId where
  index : UInt32
  generation : UInt32
deriving Repr, DecidableEq

namespace SlotId

def handle (id : SlotId) : Handle := ⟨id.index.toNat, id.generation.toNat⟩

def display (id : SlotId) : String := "dep#" ++ toString id.index

end SlotId

structure ThreadedSlot (α : Type) where
  content : Option α
  generation : UInt32
  nextFree : Option UInt32
deriving Repr

structure ThreadedArena (α : Type) where
  slots : Array (ThreadedSlot α)
  freeHead : Option UInt32
  liveCount : Nat
deriving Repr

namespace ThreadedArena

variable {α : Type}

def empty : ThreadedArena α := ⟨#[], none, 0⟩

instance : Inhabited (ThreadedArena α) := ⟨empty⟩

def setSlot (arena : ThreadedArena α) (index : UInt32) (slot : ThreadedSlot α) : ThreadedArena α :=
  { arena with slots := arena.slots.setIfInBounds index.toNat slot }

/-- Stores a value in the slot freed last, or in a new one; none if that slot is not there or holds
something. -/
def allocate? (arena : ThreadedArena α) (content : α) : Option (SlotId × ThreadedArena α) :=
  match arena.freeHead with
  | some index =>
    match arena.slots[index.toNat]? with
    | some ⟨none, generation, next⟩ =>
      some (⟨index, generation⟩, { arena.setSlot index ⟨some content, generation, none⟩ with
        freeHead := next
        liveCount := arena.liveCount + 1 })
    | _ => none
  | none =>
    some (⟨.ofNat arena.slots.size, 0⟩, { arena with
      slots := arena.slots.push ⟨some content, 0, none⟩
      liveCount := arena.liveCount + 1 })

def slot? (arena : ThreadedArena α) (id : SlotId) : Option (ThreadedSlot α) :=
  arena.slots[id.index.toNat]?.filter fun slot => slot.generation == id.generation

/-- What is stored under an identifier, while it is live. -/
def get? (arena : ThreadedArena α) (id : SlotId) : Option α :=
  (arena.slot? id).bind ThreadedSlot.content

def contains (arena : ThreadedArena α) (id : SlotId) : Bool := (arena.get? id).isSome

/-- Frees the slot of a live identifier; a stale one changes nothing. -/
def deallocate (arena : ThreadedArena α) (id : SlotId) : Option α × ThreadedArena α :=
  match arena.slot? id with
  | some ⟨some content, generation, _⟩ =>
    (some content, { arena.setSlot id.index ⟨none, generation + 1, arena.freeHead⟩ with
      freeHead := some id.index
      liveCount := arena.liveCount - 1 })
  | _ => (none, arena)

/-- Changes what is stored under a live identifier. -/
def update (arena : ThreadedArena α) (id : SlotId) (change : α → α) : ThreadedArena α :=
  match arena.slot? id with
  | some ⟨some content, generation, next⟩ =>
    arena.setSlot id.index ⟨some (change content), generation, next⟩
  | _ => arena

/-- The live identifiers with what they hold, by index. -/
def entries (arena : ThreadedArena α) : List (SlotId × α) :=
  arena.slots.toList.zipIdx.filterMap fun (slot, index) =>
    slot.content.map fun content => (⟨.ofNat index, slot.generation⟩, content)

def ids (arena : ThreadedArena α) : List SlotId := arena.entries.map Prod.fst

/-- Frees every slot, the last one first. -/
def clear (arena : ThreadedArena α) : ThreadedArena α :=
  arena.ids.reverse.foldl (fun arena id => (arena.deallocate id).2) arena

end ThreadedArena

end ConceptLaws
