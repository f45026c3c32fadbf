import ConceptLaws.Proofs.Propagation.Motion

/-! Elementary changes of a network.
Whatever is done to a network comes down to a few kinds of change, one key or one tree at a time:
keys are added and erased, their state changes, an edge is added or satisfied, trees come and go.
What each of these preserves is preserved by every cascade. -/

namespace ConceptLaws.Propagation

namespace Network

inductive Change (network : Network) : Network → Prop where
  /-- Agenda, counts and the changed entities are kept beside the trees. -/
  | bookkeeping {later : Network} (trees : later.trees = network.trees) : Change network later
  | ensure (key : Address) : Change network (network.ensure key)
  /-- A value or a mark of a key; its edges and triggers stay. -/
  | state (key : Address) (change : Cell → Cell)
      (waiting : ∀ cell, (change cell).waiting = cell.waiting)
      (triggers : ∀ cell, (change cell).triggers = cell.triggers) :
      Change network (network.updateCell key change)
  | satisfied {waiter source : Address} {edge : Edge}
      (held : network.edge? waiter source = some edge) :
      Change network (network.updateCell waiter fun cell =>
        { cell with waiting := cell.waiting.insert source ⟨true, none⟩ })
  | lowered (key : Address) : Change network (network.updateCell key Cell.deactivated)
  | role (handle : Handle) (role : Role) :
      Change network (network.updateTree handle fun tree => { tree with role })
  /-- Only a key that takes part in no edge is erased, and only one without keys below it. -/
  | erased (handle : Handle) (path : Path)
      (unlinked : ∀ cell, network.cell? ⟨handle, path⟩ = some cell → cell.isUnlinked = true) :
      Change network (eraseLeaf handle network path)
  | linked {waiter source : Address} (callback : Option Callback)
      (waits : (network.cell? waiter).isSome) (tells : (network.tree? source.tree).isSome)
      (new : network.edge? waiter source = none) :
      Change network (network.link waiter source callback)
  | created (role : Role) : Change network (network.create role).2
  | removed (handle : Handle) : Change network (network.remove handle).2
  | cleared : Change network network.clear

/-- Changes one after another. -/
abbrev Changes : Network → Network → Prop := Relation.ReflTransGen Change

variable {network later : Network}

theorem Change.once (change : network.Change later) : network.Changes later := .single change

theorem changes_ensureWith (network : Network) (key : Address) (change : Cell → Cell)
    (waiting : ∀ cell, (change cell).waiting = cell.waiting)
    (triggers : ∀ cell, (change cell).triggers = cell.triggers) :
    network.Changes (network.ensureWith key change) := by
  rw [ensureWith_eq]
  exact (Change.once (.ensure key)).tail (.state key change waiting triggers)

/-! ## Waiting -/

theorem changes_activateSubtree (walk : ActivationWalk) (key : Address) :
    walk.network.Changes (activateSubtree walk key).network := by
  unfold activateSubtree
  dsimp only
  split
  · exact .refl
  rename_i tree live
  refine (Change.once (.ensure key)).trans (chain_foldl ActivationWalk.network
    (tree.subtree key.path) (fun entry _ state => ?_)
    { walk with network := walk.network.ensure key })
  unfold activateKey
  dsimp only
  split
  · exact .refl
  · exact Change.once (.state _ _ (fun _ => rfl) fun _ => rfl)

theorem changes_walkActivation (turns : Nat) (walk : ActivationWalk) :
    walk.network.Changes (walkActivation turns walk).network := by
  induction turns generalizing walk with
  | zero => exact .refl
  | succ turns ih =>
    unfold walkActivation
    split
    · exact .refl
    · rename_i key rest _
      exact (changes_activateSubtree
        { walk with stack := rest, seen := walk.seen.insert key } key).trans (ih _)

theorem changes_activateFrom (network : Network) (key : Address) :
    network.Changes (network.activateFrom key) :=
  (changes_walkActivation (network.edgeCount + 1) ⟨network, [key], ∅, []⟩).tail
    (.bookkeeping rfl)

theorem changes_waitOn (network : Network) (waiter source : Address)
    (callback : Option Callback) : network.Changes (network.waitOn waiter source callback).2 := by
  have prepared : network.Changes (network.prepareWaiter waiter) :=
    changes_ensureWith network waiter _ (fun _ => rfl) fun _ => rfl
  have waited := network.waited_waitOn waiter source callback
  generalize (network.waitOn waiter source callback).2 = later at waited ⊢
  cases waited with
  | stale => exact .refl
  | held => exact prepared
  | linked waits tells new trees =>
    have linked := prepared.tail (.linked callback waits tells new)
    refine .tail ?_ (.bookkeeping trees)
    unfold linkRoused
    split
    · exact linked.trans (changes_activateFrom _ source)
    · exact linked

/-! ## Commands and variables -/

theorem changes_bindCommand (network : Network) (handle : Handle) (source : Address)
    (callback : Callback) : network.Changes (network.bindCommand handle source callback) := by
  unfold bindCommand
  split
  · exact .refl
  split
  · rename_i binding command _ _
    cases callback with
    | bindTarget => exact .head (.role _ _) (changes_waitOn _ _ _ none)
    | bindBlock place =>
      dsimp only
      split
      · exact .refl
      · exact .head (.role _ _) (changes_waitOn _ _ _ none)
  · exact .refl

theorem changes_satisfy (network : Network) (waiter source : Address) :
    network.Changes (network.satisfy waiter source).2 := by
  rw [satisfy_eq_edge?]
  split
  · exact .refl
  rename_i held
  split
  · exact .refl
  dsimp only
  have satisfied := Change.once (.satisfied held)
  split
  · exact satisfied
  · refine .trans ?_ (changes_bindCommand _ _ _ _)
    exact satisfied.tail (.bookkeeping rfl)

/-! ## Motions and operations -/

theorem Motion.changes (motion : network.Motion later) : network.Changes later := by
  cases motion with
  | bookkeeping trees => exact Change.once (.bookkeeping trees)
  | ensure key => exact Change.once (.ensure key)
  | state key change same =>
    exact Change.once (.state key change (fun cell => (same cell).waiting) fun cell =>
      (same cell).triggers)
  | raised => exact Change.once (.state _ _ (fun _ => rfl) fun _ => rfl)
  | role handle => exact Change.once (.role handle _)
  | erased handle path unlinked => exact Change.once (.erased handle path unlinked)
  | satisfied waiter source => exact network.changes_satisfy waiter source

theorem Shift.changes (shift : network.Shift later) : network.Changes later := by
  cases shift with
  | motion motion => exact motion.changes
  | waited waiter source callback => exact network.changes_waitOn waiter source callback
  | roused key => exact network.changes_activateFrom key
  | created role => exact Change.once (.created role)
  | removed handle => exact Change.once (.removed handle)

theorem Shifts.changes (shifts : network.Shifts later) : network.Changes later := by
  induction shifts with
  | refl => exact .refl
  | tail _ shift ih => exact ih.trans shift.changes

theorem Motions.changes (motions : network.Motions later) : network.Changes later :=
  Shifts.changes (Motions.shifts motions)

/-! ## Deactivation -/

theorem changes_deactivateWithin (depth : Nat) (network : Network) (key : Address) :
    network.Changes (network.deactivateWithin depth key).2 := by
  induction depth generalizing network key with
  | zero => exact .refl
  | succ depth ih =>
    unfold deactivateWithin
    split
    · exact .refl
    rename_i tree live
    split
    · exact .refl
    split
    · exact .refl
    dsimp only
    split
    · exact .refl
    · have lowered (later : Network) (entry : Path × Cell) :
          later.Changes (later.updateCell ⟨key.tree, entry.1⟩ Cell.deactivated) :=
        Change.once (.lowered _)
      exact (chain_foldl id (tree.subtree key.path) (fun entry _ later => lowered later entry)
        network).trans (chain_foldl id _ (fun source _ later => ih later source) _)

end Network

end ConceptLaws.Propagation

namespace ConceptLaws.Command

open Propagation Propagation.Network

/-- Whatever is called for, the network makes elementary changes only. -/
theorem Call.changes (call : Call) (network : Network) :
    network.Changes (call.perform network) := by
  cases call with
  | create role => exact Change.once (.created role)
  | createEntity entity concept precedence =>
    exact (network.shifts_createEntity entity concept precedence).changes
  | remove handle => exact Change.once (.removed handle)
  | clear => exact Change.once .cleared
  | ensure key => exact Change.once (.ensure key)
  | wait waiter source callback =>
    exact (network.changes_waitOn waiter source callback).trans (moving_drain _).changes
  | resolve waiter source =>
    exact Motions.changes
      ((motions_resolveEdge moving_drain network waiter source).trans (moving_drain _))
  | checkResolved key probe => exact (network.motions_checkResolved key probe).changes
  | propagate key =>
    exact Motions.changes ((network.motions_propagateKey key).trans (moving_drain _))
  | activate key => exact (network.changes_activateFrom key).trans (moving_drain _).changes
  | deactivate key => exact network.changes_deactivateWithin _ key
  | know key recursive => exact (motions_setKnown moving_drain network key recursive).changes
  | block key => exact (network.motions_block key).changes
  | settle => exact Motions.changes ((network.motions_updateAgenda _).trans (moving_drain _))
  | bind variableTable name target =>
    exact (motions_bindVariable moving_drain network variableTable name target).changes
  | editField entity key value => exact (network.motions_edit entity key value).changes
  | compileSource context owner source =>
    exact (shifts_compileSource context owner source network).changes
  | compileTemplate context owner template swapped =>
    exact (shifts_compileTemplate context owner template swapped network).changes
  | takeChanged => exact Change.once (.bookkeeping rfl)

theorem changes_performCalls (calls : List Call) (network : Network) :
    network.Changes (performCalls network calls) :=
  chain_foldl id calls (fun call _ later => call.changes later) network

end ConceptLaws.Command
