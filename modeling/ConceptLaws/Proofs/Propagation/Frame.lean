import ConceptLaws.Proofs.Arena.Tidy
import ConceptLaws.Propagation.Cascade

/-! The frame of a network.
Only creating and removing trees changes which slots are in use and which is taken next. Whatever is
written, waited for or worked off by a cascade leaves them as they are, and no cascade changes how
many events a cascade may handle. -/

namespace ConceptLaws

namespace Arena

variable {α : Type}

theorem size_update (arena : Arena α) (handle : Handle) (change : α → α) :
    (arena.update handle change).slots.size = arena.slots.size := by
  unfold update
  split
  · rfl
  · exact size_setSlot ..

theorem free_update (arena : Arena α) (handle : Handle) (change : α → α) :
    (arena.update handle change).free = arena.free := by
  unfold update
  split <;> rfl

theorem inUse_update (arena : Arena α) (handle : Handle) (change : α → α) (index : Nat) :
    (arena.update handle change).inUse index = arena.inUse index := by
  unfold update
  cases live : arena.get? handle with
  | none => rfl
  | some content =>
    rw [inUse_setSlot (index_lt_of_get? live)]
    split
    · rename_i same
      exact (inUse_iff.2 ⟨handle, content, same.symm, live⟩).symm
    · rfl

theorem issued_update (arena : Arena α) (handle : Handle) (change : α → α) (query : Handle) :
    (arena.update handle change).Issued query ↔ arena.Issued query := by
  refine ⟨fun issued => ?_, fun issued => issued.update handle change⟩
  unfold update at issued
  cases live : arena.get? handle with
  | none => simpa only [live] using issued
  | some content =>
    simp only [live] at issued
    obtain ⟨slot, found, past⟩ := issued
    rw [getElem?_setSlot] at found
    split at found
    · rename_i same
      obtain rfl := Option.some.inj found
      refine ⟨_, by rw [same.1]; exact get?_eq_some_iff.1 live, ?_⟩
      simpa using past
    · exact ⟨slot, found, past⟩

end Arena

namespace Propagation.Network

/-- The same slots are in use, the others are free in the same order, no handle was given out, and
the limit of cascades is the same. -/
structure SameFrame (network later : Network) : Prop where
  maxSteps : later.maxSteps = network.maxSteps
  size : later.trees.slots.size = network.trees.slots.size
  inUse : ∀ index, later.trees.inUse index = network.trees.inUse index
  free : later.trees.free = network.trees.free
  issued : ∀ handle, later.trees.Issued handle ↔ network.trees.Issued handle

theorem sameFrame_refl (network : Network) : network.SameFrame network :=
  ⟨rfl, rfl, fun _ => rfl, rfl, fun _ => Iff.rfl⟩

theorem SameFrame.trans {first second third : Network} (earlier : first.SameFrame second)
    (later : second.SameFrame third) : first.SameFrame third where
  maxSteps := later.maxSteps.trans earlier.maxSteps
  size := later.size.trans earlier.size
  inUse index := (later.inUse index).trans (earlier.inUse index)
  free := later.free.trans earlier.free
  issued handle := (later.issued handle).trans (earlier.issued handle)

theorem SameFrame.tidy {network later : Network} (same : network.SameFrame later) {count : Nat}
    (tidy : network.trees.Tidy count) : later.trees.Tidy count where
  within := same.size ▸ tidy.within
  inUse index := by rw [same.inUse, tidy.inUse]
  free := by rw [same.free, same.size, tidy.free]

/-- Nothing but the trees and the limit matters. -/
theorem sameFrame_of_trees {network later : Network} (trees : later.trees = network.trees)
    (maxSteps : later.maxSteps = network.maxSteps) : network.SameFrame later :=
  ⟨maxSteps, by rw [trees], fun _ => by rw [trees], by rw [trees], fun _ => by rw [trees]⟩

theorem sameFrame_foldl {α : Type} {step : Network → α → Network}
    (each : ∀ network item, Network.SameFrame network (step network item)) (items : List α)
    (network : Network) : network.SameFrame (items.foldl step network) := by
  induction items generalizing network with
  | nil => exact network.sameFrame_refl
  | cons first rest ih => exact (each network first).trans (ih _)

variable (network : Network)

/-! ## Trees and keys -/

theorem sameFrame_updateTree (handle : Handle) (change : Tree → Tree) :
    network.SameFrame (network.updateTree handle change) where
  maxSteps := rfl
  size := network.trees.size_update handle change
  inUse := network.trees.inUse_update handle change
  free := network.trees.free_update handle change
  issued := network.trees.issued_update handle change

theorem sameFrame_updateCell (key : Address) (change : Cell → Cell) :
    network.SameFrame (network.updateCell key change) :=
  network.sameFrame_updateTree _ _

theorem sameFrame_ensure (key : Address) : network.SameFrame (network.ensure key) :=
  network.sameFrame_updateTree _ _

theorem sameFrame_ensureWith (key : Address) (change : Cell → Cell) :
    network.SameFrame (network.ensureWith key change) :=
  network.sameFrame_updateTree _ _

theorem sameFrame_updateAgenda (change : Agenda → Agenda) :
    network.SameFrame (network.updateAgenda change) :=
  sameFrame_of_trees rfl rfl

theorem sameFrame_updateCounts (change : Counts → Counts) :
    network.SameFrame (network.updateCounts change) :=
  sameFrame_of_trees rfl rfl

/-! ## Values -/

theorem sameFrame_noteChange (key : Address) : network.SameFrame (network.noteChange key) := by
  unfold noteChange
  split
  · exact sameFrame_of_trees rfl rfl
  · exact network.sameFrame_refl

theorem sameFrame_write (key : Address) (value : Datum) :
    network.SameFrame (network.write key value).2 := by
  unfold write
  split
  · exact network.sameFrame_refl
  split
  · exact network.sameFrame_refl
  · exact (network.sameFrame_ensureWith key _).trans (sameFrame_noteChange _ key)

theorem sameFrame_accumulate (operation : Arithmetic.Operator) (key : Address) (value : Datum) :
    network.SameFrame (network.accumulate operation key value) := by
  unfold accumulate
  split
  · exact network.sameFrame_write key value
  split
  · exact network.sameFrame_write key _
  · exact network.sameFrame_refl

theorem sameFrame_appendChild (key : Address) (value : Datum) :
    network.SameFrame (network.appendChild key value).2 := by
  unfold appendChild
  split
  · exact network.sameFrame_refl
  · exact network.sameFrame_write _ value

theorem sameFrame_appendValue (key : Address) (value : Datum) :
    network.SameFrame (network.appendValue key value).2 := by
  unfold appendValue
  split <;> exact network.sameFrame_write key _

theorem sameFrame_dropValue (key : Address) : network.SameFrame (network.dropValue key) :=
  network.sameFrame_updateCell key _

theorem sameFrame_eraseLeaf (handle : Handle) (path : Path) :
    network.SameFrame (eraseLeaf handle network path) :=
  network.sameFrame_updateTree handle _

theorem sameFrame_clearKey (key : Address) : network.SameFrame (network.clearKey key) := by
  unfold clearKey
  split
  · exact network.sameFrame_refl
  · have dropped := sameFrame_foldl fun later path => later.sameFrame_dropValue ⟨key.tree, path⟩
    have erased := sameFrame_foldl fun later path => later.sameFrame_eraseLeaf key.tree path
    exact ((network.sameFrame_dropValue key).trans (dropped _ _)).trans (erased _ _)

theorem sameFrame_applyAction (action : Command.Action) (key : Address) (value : Datum) :
    network.SameFrame (network.applyAction action key value) := by
  cases action with
  | assign => exact network.sameFrame_write key value
  | increase => exact network.sameFrame_accumulate _ key value
  | decrease => exact network.sameFrame_accumulate _ key value
  | scale => exact network.sameFrame_accumulate _ key value
  | addChild => exact network.sameFrame_appendChild key value
  | addValue => exact network.sameFrame_appendValue key value
  | clear => exact network.sameFrame_clearKey key

theorem sameFrame_carryOut (command : Command.Compiled) (target : Address) :
    network.SameFrame (network.carryOut command target) := by
  have counted := network.sameFrame_updateCounts fun counts =>
    { counts with commands := counts.commands + 1 }
  unfold carryOut
  dsimp only
  split
  · exact counted.trans (sameFrame_clearKey _ target)
  · refine counted.trans (sameFrame_foldl (fun later result => ?_) _ _)
    obtain ⟨suffix, outcome⟩ := result
    cases outcome with
    | ok value => exact later.sameFrame_applyAction _ _ value
    | error fault => exact later.sameFrame_refl

theorem sameFrame_aggregateSymbol (handle : Handle) :
    network.SameFrame (network.aggregateSymbol handle) := by
  unfold aggregateSymbol
  split
  · exact network.sameFrame_refl
  · exact network.sameFrame_updateCell _ _

/-! ## Waiting -/

theorem sameFrame_foldl_activateKey (handle : Handle) (entries : List (Path × Cell))
    (walk : ActivationWalk) :
    walk.network.SameFrame (entries.foldl (activateKey handle) walk).network := by
  induction entries generalizing walk with
  | nil => exact walk.network.sameFrame_refl
  | cons first rest ih =>
    have head : walk.network.SameFrame (activateKey handle walk first).network := by
      unfold activateKey
      dsimp only
      split
      · exact walk.network.sameFrame_refl
      · exact walk.network.sameFrame_updateCell _ _
    exact head.trans (ih _)

theorem sameFrame_activateSubtree (walk : ActivationWalk) (key : Address) :
    walk.network.SameFrame (activateSubtree walk key).network := by
  unfold activateSubtree
  dsimp only
  split
  · exact walk.network.sameFrame_refl
  · exact (walk.network.sameFrame_ensure key).trans (sameFrame_foldl_activateKey key.tree _
      { walk with network := walk.network.ensure key })

theorem sameFrame_walkActivation (turns : Nat) (walk : ActivationWalk) :
    walk.network.SameFrame (walkActivation turns walk).network := by
  induction turns generalizing walk with
  | zero => exact walk.network.sameFrame_refl
  | succ turns ih =>
    unfold walkActivation
    split
    · exact walk.network.sameFrame_refl
    · rename_i key rest _
      exact (sameFrame_activateSubtree
        { walk with stack := rest, seen := walk.seen.insert key } key).trans (ih _)

theorem sameFrame_activateFrom (key : Address) : network.SameFrame (network.activateFrom key) :=
  (sameFrame_walkActivation (network.edgeCount + 1) ⟨network, [key], ∅, []⟩).trans
    (sameFrame_of_trees rfl rfl)

theorem sameFrame_prepareWaiter (waiter : Address) :
    network.SameFrame (network.prepareWaiter waiter) :=
  network.sameFrame_ensureWith waiter _

theorem sameFrame_addEdge (waiter source : Address) (callback : Option Callback) :
    network.SameFrame (network.addEdge waiter source callback) :=
  network.sameFrame_updateCell waiter _

theorem sameFrame_waitOn (waiter source : Address) (callback : Option Callback) :
    network.SameFrame (network.waitOn waiter source callback).2 := by
  have prepared := network.sameFrame_prepareWaiter waiter
  unfold waitOn
  split
  · exact network.sameFrame_refl
  dsimp only
  split
  · exact prepared
  have added := prepared.trans (sameFrame_addEdge _ waiter source callback)
  have linked := added.trans (sameFrame_ensureWith _ source fun cell =>
    { cell with triggers := cell.triggers.insert waiter })
  have told (later : Network) (same : network.SameFrame later) :
      network.SameFrame (later.updateAgenda fun agenda => agenda.pushResolve waiter source) :=
    same.trans (sameFrame_updateAgenda later _)
  split
  · apply told
    split
    · exact linked.trans (sameFrame_activateFrom _ source)
    · exact linked
  · split
    · exact linked.trans (sameFrame_activateFrom _ source)
    · exact linked

/-! ## Commands and variables -/

/-- What is asked of a cascade. -/
def Framed (cascade : Cascade) : Prop := ∀ network : Network, network.SameFrame (cascade network)

theorem framed_id : Framed id := sameFrame_refl

theorem sameFrame_setCommand (handle : Handle) (command : Command.Compiled) :
    network.SameFrame (network.setCommand handle command) :=
  network.sameFrame_updateTree handle _

section cascades

variable {cascade : Cascade} (framed : Framed cascade)

include framed

theorem sameFrame_setKnown (key : Address) :
    network.SameFrame (network.setKnown cascade key false) := by
  unfold setKnown
  split
  · exact network.sameFrame_refl
  · exact ((network.sameFrame_ensureWith key _).trans (sameFrame_updateAgenda _ _)).trans (framed _)

theorem sameFrame_bindVariable (variableTable : Handle) (name : String) (target : Address) :
    network.SameFrame (network.bindVariable cascade variableTable name target) := by
  unfold bindVariable
  split
  · exact ((network.sameFrame_updateTree variableTable _).trans (sameFrame_ensureWith _ _ _)).trans
      (sameFrame_setKnown _ framed _)
  · exact network.sameFrame_refl

theorem sameFrame_execute (handle : Handle) :
    network.SameFrame (network.execute cascade handle) := by
  unfold execute
  split
  · exact network.sameFrame_refl
  rename_i command _
  split
  · exact network.sameFrame_refl
  dsimp only
  have marked := network.sameFrame_setCommand handle { command with executed := true }
  split
  · exact marked
  rename_i target _
  have carried := marked.trans (sameFrame_carryOut _ command target)
  split
  · exact carried.trans (sameFrame_bindVariable _ framed _ _ _)
  · exact carried

end cascades

theorem sameFrame_bindCommand (handle : Handle) (source : Address) (callback : Callback) :
    network.SameFrame (network.bindCommand handle source callback) := by
  unfold bindCommand
  split
  · exact network.sameFrame_refl
  split
  · cases callback with
    | bindTarget => exact (network.sameFrame_setCommand handle _).trans (sameFrame_waitOn _ _ _ none)
    | bindBlock place =>
      dsimp only
      split
      · exact network.sameFrame_refl
      · exact (network.sameFrame_setCommand handle _).trans (sameFrame_waitOn _ _ _ none)
  · exact network.sameFrame_refl

/-! ## Completing keys -/

theorem sameFrame_satisfy (waiter source : Address) :
    network.SameFrame (network.satisfy waiter source).2 := by
  unfold satisfy
  split
  · exact network.sameFrame_refl
  split
  · exact network.sameFrame_refl
  dsimp only
  have satisfied := network.sameFrame_updateCell waiter fun cell =>
    { cell with waiting := cell.waiting.insert source ⟨true, none⟩ }
  split
  · exact satisfied
  · exact (satisfied.trans (sameFrame_updateCounts _ _)).trans (sameFrame_bindCommand _ _ source _)

theorem sameFrame_propagateKey (key : Address) :
    network.SameFrame (network.propagateKey key) := by
  unfold propagateKey
  split
  · exact network.sameFrame_refl
  split
  · exact network.sameFrame_refl
  · exact (network.sameFrame_updateCell key _).trans (sameFrame_of_trees rfl rfl)

section cascades

variable {cascade : Cascade} (framed : Framed cascade)

include framed

theorem sameFrame_runKey (key : Address) : network.SameFrame (network.runKey cascade key) := by
  unfold runKey
  split
  · split
    · exact network.sameFrame_aggregateSymbol key.tree
    · exact network.sameFrame_refl
  · split
    · exact network.sameFrame_execute framed key.tree
    · exact network.sameFrame_refl
  · exact network.sameFrame_refl

theorem sameFrame_runAndPropagate (key : Address) :
    network.SameFrame (network.runAndPropagate cascade key) :=
  (network.sameFrame_runKey framed key).trans (sameFrame_propagateKey _ key)

theorem sameFrame_complete (key : Address) : network.SameFrame (network.complete cascade key) := by
  unfold complete
  split
  · exact network.sameFrame_refl
  · have below := sameFrame_foldl (fun later path =>
      sameFrame_runAndPropagate later framed ⟨key.tree, path⟩)
    exact ((below _ _).trans (sameFrame_runAndPropagate _ framed key)).trans
      (sameFrame_updateAgenda _ _)

omit framed

/-! ## The cascade -/

theorem sameFrame_satisfyDone (handle : Handle) (edges : List (Path × Address)) :
    network.SameFrame (network.satisfyDone handle edges).2.2 := by
  induction edges generalizing network with
  | nil => exact network.sameFrame_refl
  | cons first rest ih =>
    unfold satisfyDone
    split
    · exact (network.sameFrame_satisfy ⟨handle, first.1⟩ first.2).trans (ih _)
    · exact ih network

theorem sameFrame_settleKey (key : Address) (turns : Nat) :
    network.SameFrame (settleKey none key turns network).2 := by
  induction turns generalizing network with
  | zero => exact network.sameFrame_refl
  | succ turns ih =>
    unfold settleKey
    split
    · rename_i edges _
      have satisfied := network.sameFrame_satisfyDone key.tree edges
      dsimp only
      split
      · exact satisfied.trans (ih _)
      · exact satisfied
    · exact network.sameFrame_refl

include framed

theorem sameFrame_attempt {above : Network → Address → Network}
    (upper : ∀ (network : Network) key, network.SameFrame (above network key)) (key : Address) :
    network.SameFrame (attempt cascade none above network key).2 := by
  have settled := network.sameFrame_settleKey key (network.pendingWeight + 1)
  unfold attempt
  generalize settleKey none key (network.pendingWeight + 1) network = outcome at *
  obtain ⟨answer, later⟩ := outcome
  cases answer with
  | complete => exact settled
  | stuck => exact settled
  | «open» edges => exact settled
  | ready =>
    have completed := settled.trans (sameFrame_complete _ framed key)
    dsimp only
    split
    · exact completed.trans (upper _ _)
    · exact completed

theorem sameFrame_checkUp (levels : Nat) (key : Address) :
    network.SameFrame (checkUp cascade levels network key).2 := by
  induction levels generalizing network key with
  | zero => exact network.sameFrame_attempt framed (fun network _ => network.sameFrame_refl) key
  | succ levels ih => exact network.sameFrame_attempt framed (fun network above => ih network above) key

end cascades

theorem sameFrame_handle (event : Event) : network.SameFrame (network.handle event) := by
  cases event with
  | check key => exact network.sameFrame_checkUp framed_id key.path.length key
  | resolve waiter source =>
    have satisfied := network.sameFrame_satisfy waiter source
    unfold handle resolveEdge
    dsimp only
    generalize network.satisfy waiter source = outcome at *
    obtain ⟨newly, later⟩ := outcome
    cases newly with
    | false => exact satisfied
    | true => exact satisfied.trans (sameFrame_checkUp _ framed_id waiter.path.length waiter)

theorem sameFrame_drainSteps (steps : Nat) : network.SameFrame (network.drainSteps steps) := by
  induction steps generalizing network with
  | zero =>
    unfold drainSteps
    split
    · exact network.sameFrame_refl
    · exact sameFrame_of_trees rfl rfl
  | succ steps ih =>
    unfold drainSteps
    split
    · exact network.sameFrame_refl
    · rename_i event agenda _
      have taken : network.SameFrame ({ network with agenda } : Network).countEvent :=
        sameFrame_of_trees rfl rfl
      exact (taken.trans (sameFrame_handle _ event)).trans (ih _)

/-- No cascade makes or removes a tree or changes the limit. -/
theorem framed_drain : Framed drain := fun network => network.sameFrame_drainSteps network.maxSteps

theorem sameFrame_activate (key : Address) : network.SameFrame (network.activate key) :=
  (network.sameFrame_activateFrom key).trans (framed_drain _)

theorem sameFrame_settle : network.SameFrame network.settle :=
  (network.sameFrame_updateAgenda _).trans (framed_drain _)

theorem sameFrame_bind (variableTable : Handle) (name : String) (target : Address) :
    network.SameFrame (network.bind variableTable name target) :=
  network.sameFrame_bindVariable framed_drain variableTable name target

end Propagation.Network

end ConceptLaws
