import ConceptLaws.Proofs.Past.Execution
import ConceptLaws.Propagation.Cascade

/-! Cascades with a past.
A look at a key says the same, a completed key completes the same keys with it, and the events of a
cascade come in the same order, since the order of keys is that of their slots. -/

namespace ConceptLaws.Past

open Propagation

variable (past : Past) (network : Network)

/-! ## Steps of a cascade -/

@[simp] theorem satisfy_network (waiter source : Address) :
    (past.network network).satisfy (past.key waiter) (past.key source) =
      ((network.satisfy waiter source).1, past.network (network.satisfy waiter source).2) := by
  have held : (((past.network network).cell? (past.key waiter)) >>= fun cell =>
      cell.waiting[past.key source]?) =
        (network.cell? waiter >>= fun cell => cell.waiting[source]?) := by
    rw [cell?_network]
    cases network.cell? waiter <;> simp
  have closed : (past.network network).updateCell (past.key waiter)
      (fun cell => { cell with waiting := cell.waiting.insert (past.key source) ⟨true, none⟩ }) =
        past.network (network.updateCell waiter fun cell =>
          { cell with waiting := cell.waiting.insert source ⟨true, none⟩ }) :=
    past.updateCell_network network waiter fun cell => by simp [Past.cell]
  unfold Network.satisfy
  rw [held]
  cases network.cell? waiter >>= fun cell => cell.waiting[source]? with
  | none => rfl
  | some edge =>
    obtain ⟨satisfied, callback⟩ := edge
    cases satisfied with
    | true => rfl
    | false => cases callback <;> simp [closed]

@[simp] theorem propagateKey_network (key : Address) :
    (past.network network).propagateKey (past.key key) =
      past.network (network.propagateKey key) := by
  have marked : (past.network network).updateCell (past.key key)
      (fun cell => { cell with propagated := true }) =
        past.network (network.updateCell key fun cell => { cell with propagated := true }) :=
    past.updateCell_network network key fun _ => rfl
  have told (waiters : List Address) (agenda : Agenda) :
      (waiters.map past.key).foldl (fun agenda waiter => agenda.pushResolve waiter (past.key key))
          (past.agenda agenda) =
        past.agenda (waiters.foldl (fun agenda waiter => agenda.pushResolve waiter key)
          agenda) := by
    induction waiters generalizing agenda with
    | nil => rfl
    | cons first rest ih => simp only [List.map_cons, List.foldl_cons, pushResolve_agenda, ih]
  unfold Network.propagateKey
  rw [cell?_network]
  cases network.cell? key with
  | none => rfl
  | some cell =>
    simp only [Option.map_some, propagated_cell, marked, triggers_cell, Renaming.toList_set,
      updateCounts_network]
    by_cases done : cell.propagated
    · simp [done]
    · simp only [done, Bool.false_eq_true, ↓reduceIte]
      exact past.updateAgenda_network _ (told _ _)

variable {cascade : Network.Cascade} (carries : past.Carries cascade)

include carries

theorem runKey_network (key : Address) :
    (past.network network).runKey cascade (past.key key) =
      past.network (network.runKey cascade key) := by
  unfold Network.runKey
  rw [tree_key, tree?_network, path_key]
  cases network.tree? key.tree with
  | none => rfl
  | some tree =>
    obtain ⟨role, keys⟩ := tree
    cases role with
    | data role =>
      simp only [Option.map_some, role_tree, Past.role, aggregateSymbol_network]
      split <;> rfl
    | command command =>
      simp only [Option.map_some, role_tree, Past.role, past.execute_network _ carries]
      split <;> rfl
    | variableTable role => rfl
    | plain => rfl

theorem runAndPropagate_network (key : Address) :
    (past.network network).runAndPropagate cascade (past.key key) =
      past.network (network.runAndPropagate cascade key) := by
  simp only [Network.runAndPropagate, past.runKey_network _ carries, propagateKey_network]

theorem complete_network (key : Address) :
    (past.network network).complete cascade (past.key key) =
      past.network (network.complete cascade key) := by
  have completed (paths : List Path) (network : Network) :
      paths.foldl (fun network path =>
          network.runAndPropagate cascade ⟨past.handle key.tree, path⟩) (past.network network) =
        past.network (paths.foldl (fun network path =>
          network.runAndPropagate cascade ⟨key.tree, path⟩) network) :=
    past.foldl_network (fun network path =>
      past.runAndPropagate_network network carries ⟨key.tree, path⟩) paths network
  have later (paths : List Path) : (paths.map fun path => (⟨past.handle key.tree, path⟩ : Address)) =
      (paths.map fun path => (⟨key.tree, path⟩ : Address)).map past.key := by
    rw [List.map_map]
    rfl
  unfold Network.complete
  rw [tree_key, tree?_network]
  cases network.tree? key.tree with
  | none => rfl
  | some tree =>
    simp only [Option.map_some, path_key, following_tree, completed,
      past.runAndPropagate_network _ carries, later]
    exact past.updateAgenda_network _ (past.pushChecks_agenda _ _)

omit carries

/-! ## Looks -/

/-- What a look says, with its edges renamed. -/
def standing : Network.Standing → Network.Standing
  | .complete => .complete
  | .stuck => .stuck
  | .ready => .ready
  | .open edges => .open (edges.map fun edge => (edge.1, past.key edge.2))

@[simp] theorem standing_network (key : Address) :
    (past.network network).standing (past.key key) = past.standing (network.standing key) := by
  unfold Network.standing
  rw [tree_key, tree?_network]
  cases network.tree? key.tree with
  | none => rfl
  | some tree =>
    simp only [Option.map_some, path_key, cell?_tree]
    cases tree.cell? key.path with
    | none => rfl
    | some cell =>
      simp only [Option.map_some, propagated_cell, active_cell, blocked_cell, known_cell, role_tree,
        isVariables_role, pending?_tree, apply_ite past.standing]
      split
      · rfl
      split
      · rfl
      split
      · rfl
      split
      · rfl
      cases tree.pending? key.path with
      | none => rfl
      | some edges => cases edges <;> rfl

theorem satisfyDone_network (handle : Handle) (edges : List (Path × Address)) :
    (past.network network).satisfyDone (past.handle handle)
        (edges.map fun edge => (edge.1, past.key edge.2)) =
      ((network.satisfyDone handle edges).1,
        (network.satisfyDone handle edges).2.1.map fun edge => (edge.1, past.key edge.2),
        past.network (network.satisfyDone handle edges).2.2) := by
  induction edges generalizing network with
  | nil => rfl
  | cons first rest ih =>
    obtain ⟨path, source⟩ := first
    simp only [List.map_cons, Network.satisfyDone, isPropagated_network, mk_key, satisfy_network, ih]
    split <;> rfl

theorem settleKey_network (key : Address) (turns : Nat) :
    Network.settleKey none (past.key key) turns (past.network network) =
      (past.standing (Network.settleKey none key turns network).1,
        past.network (Network.settleKey none key turns network).2) := by
  induction turns generalizing network with
  | zero => rfl
  | succ turns ih =>
    simp only [Network.settleKey, standing_network]
    cases network.standing key with
    | «open» edges =>
      have done := past.satisfyDone_network network key.tree edges
      obtain ⟨progressed, left, later⟩ := network.satisfyDone key.tree edges
      simp only [Past.standing, tree_key, done, List.isEmpty_map, ih]
      split <;> rfl
    | _ => rfl

/-- What is asked of the look at the key above. -/
def CarriesAbove (above : Network → Address → Network) : Prop :=
  ∀ network key, above (past.network network) (past.key key) = past.network (above network key)

include carries

theorem attempt_network {above : Network → Address → Network}
    (carriesAbove : past.CarriesAbove above) (key : Address) :
    Network.attempt cascade none above (past.network network) (past.key key) =
      ((Network.attempt cascade none above network key).1,
        past.network (Network.attempt cascade none above network key).2) := by
  unfold Network.attempt
  rw [pendingWeight_network, settleKey_network]
  obtain ⟨answer, later⟩ := Network.settleKey none key (network.pendingWeight + 1) network
  cases answer with
  | ready =>
    simp only [Past.standing, past.complete_network _ carries, path_key, tree_key, mk_key]
    cases key.path.parent? with
    | none => rfl
    | some parent => simp only [carriesAbove _ _]
  | _ => rfl

theorem checkUp_network (levels : Nat) (key : Address) :
    Network.checkUp cascade levels (past.network network) (past.key key) =
      ((Network.checkUp cascade levels network key).1,
        past.network (Network.checkUp cascade levels network key).2) := by
  induction levels generalizing network key with
  | zero => exact past.attempt_network network carries (fun _ _ => rfl) key
  | succ levels ih =>
    refine past.attempt_network network carries (fun network above => ?_) key
    exact congrArg Prod.snd (ih network above)

theorem check_network (key : Address) :
    (past.network network).check cascade (past.key key) =
      ((network.check cascade key).1, past.network (network.check cascade key).2) :=
  past.checkUp_network network carries key.path.length key

theorem resolveEdge_network (waiter source : Address) :
    (past.network network).resolveEdge cascade (past.key waiter) (past.key source) =
      ((network.resolveEdge cascade waiter source).1,
        past.network (network.resolveEdge cascade waiter source).2) := by
  unfold Network.resolveEdge
  rw [satisfy_network]
  obtain ⟨newly, later⟩ := network.satisfy waiter source
  cases newly with
  | false => rfl
  | true => simp only [past.check_network _ carries]

omit carries

/-! ## Whole cascades -/

theorem handle_network (event : Event) :
    (past.network network).handle (past.event event) = past.network (network.handle event) := by
  cases event with
  | resolve waiter source =>
    exact congrArg Prod.snd (past.resolveEdge_network network past.carries_id waiter source)
  | check key => exact congrArg Prod.snd (past.check_network network past.carries_id key)

theorem drainSteps_network (steps : Nat) :
    (past.network network).drainSteps steps = past.network (network.drainSteps steps) := by
  induction steps generalizing network with
  | zero =>
    unfold Network.drainSteps
    rw [agenda_network, pop?_agenda]
    cases network.agenda.pop? with
    | none => rfl
    | some popped =>
      obtain ⟨event, agenda⟩ := popped
      have emptied : past.network { network with agenda := .empty } =
          { past.network network with agenda := .empty } := by
        simp [Past.network]
      exact congrArg Network.countEvent emptied.symm
  | succ steps ih =>
    unfold Network.drainSteps
    rw [agenda_network, pop?_agenda]
    cases network.agenda.pop? with
    | none => rfl
    | some popped =>
      simp only [Option.map_some, withAgenda_network, Network.countEvent, updateCounts_network,
        handle_network, ih]

/-- A whole cascade does the same. -/
theorem carries_drain : past.Carries Network.drain :=
  fun network => past.drainSteps_network network network.maxSteps

@[simp] theorem activate_network (key : Address) :
    (past.network network).activate (past.key key) = past.network (network.activate key) := by
  rw [Network.activate, activateFrom_network, past.carries_drain]
  rfl

@[simp] theorem block_network (key : Address) :
    (past.network network).block (past.key key) = past.network (network.block key) :=
  past.ensureWith_network network key fun _ => rfl

@[simp] theorem settle_network :
    (past.network network).settle = past.network network.settle := by
  have unsettled : (past.network network).unsettled = network.unsettled.map past.key := by
    simp only [Network.unsettled, Past.network, entries_arena, List.flatMap_map, List.map_flatMap]
    congr 1
    funext entry
    simp [Past.tree, List.filter_map, Function.comp_def]
  have pushed : (past.network network).updateAgenda (fun agenda =>
      agenda.pushChecks (past.network network).unsettled) =
        past.network (network.updateAgenda fun agenda => agenda.pushChecks network.unsettled) := by
    rw [unsettled]
    exact past.updateAgenda_network network (past.pushChecks_agenda network.agenda _)
  rw [Network.settle, pushed, past.carries_drain]
  rfl

@[simp] theorem bind_network (variableTable : Handle) (name : String) (target : Address) :
    (past.network network).bind (past.handle variableTable) name (past.key target) =
      past.network (network.bind variableTable name target) :=
  past.bindVariable_network network past.carries_drain variableTable name target

end ConceptLaws.Past
