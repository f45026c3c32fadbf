import ConceptLaws.Proofs.Propagation.Deeds
import ConceptLaws.Proofs.Propagation.Symbol
import ConceptLaws.Proofs.Propagation.Writing

/-! How symbols are composed.
The symbol of a data tree is put together when it completes. A symbol that is complete stays so, and
as long as nothing is written below it, it is still what its parts make up. -/

namespace ConceptLaws.Propagation.Network

variable {network later : Network}

/-- The symbol of a tree is what its parts make up. -/
def HasRendered (network : Network) (handle : Handle) : Prop :=
  ∀ tree, network.tree? handle = some tree →
    network.value? ⟨handle, symbolPath⟩ = (renderSymbol tree).map .text

theorem value?_of_tree? {handle : Handle} {tree : Tree} (live : network.tree? handle = some tree)
    (path : Path) : network.value? ⟨handle, path⟩ = valueAt tree path := by
  unfold value? valueAt
  rw [cell?_of_tree? live]

theorem HasRendered.congr {handle : Handle} (rendered : network.HasRendered handle)
    (data : (network.dataRole? handle).isSome = true)
    (own : later.value? ⟨handle, symbolPath⟩ = network.value? ⟨handle, symbolPath⟩)
    (below : ∀ path, path.isBelow symbolPath = true →
      later.value? ⟨handle, path⟩ = network.value? ⟨handle, path⟩) : later.HasRendered handle := by
  intro tree live
  obtain ⟨before, liveBefore⟩ := tree?_of_dataRole? data
  rw [own, rendered before liveBefore]
  congr 1
  refine renderSymbol_congr fun path inside => ?_
  rw [← value?_of_tree? liveBefore, ← value?_of_tree? live, below path inside]

/-- Complete symbols stay complete, with what stands below them; what completes is put together. -/
structure Composes (network later : Network) : Prop where
  data : ∀ handle, later.dataRole? handle = network.dataRole? handle
  frozen : ∀ handle, (network.dataRole? handle).isSome = true →
    network.isPropagated ⟨handle, symbolPath⟩ = true →
      later.isPropagated ⟨handle, symbolPath⟩ = true ∧
        ∀ path, path.isBelow symbolPath = true →
          later.value? ⟨handle, path⟩ = network.value? ⟨handle, path⟩
  rendered : ∀ handle, (network.dataRole? handle).isSome = true →
    later.isPropagated ⟨handle, symbolPath⟩ = true →
      (network.isPropagated ⟨handle, symbolPath⟩ = true ∧
        later.value? ⟨handle, symbolPath⟩ = network.value? ⟨handle, symbolPath⟩) ∨
      later.HasRendered handle

theorem composes_refl (network : Network) : network.Composes network :=
  ⟨fun _ => rfl, fun _ _ done => ⟨done, fun _ _ => rfl⟩, fun _ _ done => Or.inl ⟨done, rfl⟩⟩

theorem Composes.trans {first second third : Network} (earlier : first.Composes second)
    (later : second.Composes third) : first.Composes third where
  data handle := (later.data handle).trans (earlier.data handle)
  frozen handle data done := by
    obtain ⟨doneThen, below⟩ := earlier.frozen handle data done
    obtain ⟨doneNow, belowNow⟩ := later.frozen handle (by rwa [earlier.data]) doneThen
    exact ⟨doneNow, fun path inside => (belowNow path inside).trans (below path inside)⟩
  rendered handle data done := by
    have dataThen : (second.dataRole? handle).isSome = true := by rwa [earlier.data]
    rcases later.rendered handle dataThen done with ⟨doneThen, same⟩ | rendered
    · rcases earlier.rendered handle data doneThen with ⟨doneFirst, sameFirst⟩ | rendered
      · exact Or.inl ⟨doneFirst, same.trans sameFirst⟩
      · exact Or.inr (rendered.congr dataThen same (later.frozen handle dataThen doneThen).2)
    · exact Or.inr rendered

/-- All complete symbols are what their parts make up. -/
def Composed (network : Network) : Prop :=
  ∀ handle, (network.dataRole? handle).isSome = true →
    network.isPropagated ⟨handle, symbolPath⟩ = true → network.HasRendered handle

theorem Composes.composed (composes : network.Composes later) (composed : network.Composed) :
    later.Composed := by
  intro handle data done
  rw [composes.data] at data
  rcases composes.rendered handle data done with ⟨doneBefore, same⟩ | rendered
  · exact (composed handle data doneBefore).congr data same
      (composes.frozen handle data doneBefore).2
  · exact rendered

theorem composes_foldl {α : Type} {step : Network → α → Network} (items : List α)
    (each : ∀ item ∈ items, ∀ network : Network, network.Composes (step network item))
    (network : Network) : network.Composes (items.foldl step network) := by
  induction items generalizing network with
  | nil => exact network.composes_refl
  | cons first rest ih =>
    exact (each first List.mem_cons_self network).trans
      (ih (fun item member => each item (List.mem_cons_of_mem first member)) _)

/-! ## What leaves values alone -/

/-- Roles and values are the same, and nothing is completed or forgotten. -/
structure Alike (network later : Network) : Prop where
  roles : network.SameRoles later
  value : ∀ key, later.value? key = network.value? key
  propagated : ∀ key, later.isPropagated key = network.isPropagated key

theorem alike_refl (network : Network) : network.Alike network :=
  ⟨fun _ => rfl, fun _ => rfl, fun _ => rfl⟩

theorem Alike.trans {first second third : Network} (earlier : first.Alike second)
    (later : second.Alike third) : first.Alike third :=
  ⟨earlier.roles.trans later.roles, fun key => (later.value key).trans (earlier.value key),
    fun key => (later.propagated key).trans (earlier.propagated key)⟩

theorem alike_of_trees (trees : later.trees = network.trees) : network.Alike later := by
  have same := fun key => untouched_of_trees trees key
  refine ⟨fun handle => ?_, fun key => (same key).value?, fun key => (same key).isPropagated⟩
  unfold tree?
  rw [trees]

theorem alike_updateAgenda (network : Network) (change : Agenda → Agenda) :
    network.Alike (network.updateAgenda change) :=
  alike_of_trees rfl

theorem alike_updateCell (network : Network) (key : Address) {change : Cell → Cell}
    (value : ∀ cell, (change cell).value = cell.value)
    (propagated : ∀ cell, (change cell).propagated = cell.propagated) :
    network.Alike (network.updateCell key change) := by
  refine ⟨network.sameRoles_updateCell key change, fun query => ?_, fun query => ?_⟩
  · unfold value?
    rw [cell?_updateCell]
    split
    · rename_i same
      rw [same]
      cases network.cell? key with
      | none => rfl
      | some cell => exact value cell
    · rfl
  · unfold isPropagated
    rw [cell?_updateCell]
    split
    · rename_i same
      rw [same]
      cases network.cell? key with
      | none => rfl
      | some cell => exact propagated cell
    · rfl

theorem alike_ensure (network : Network) (key : Address) : network.Alike (network.ensure key) := by
  have same (query : Address) : network.Untouched (network.ensure key) query :=
    network.cell?_ensure_cases key query
  exact ⟨network.sameRoles_ensure key, fun query => (same query).value?,
    fun query => (same query).isPropagated⟩

theorem alike_activateFrom (network : Network) (key : Address) :
    network.Alike (network.activateFrom key) := by
  have activated (handle : Handle) (entries : List (Path × Cell)) (walk : ActivationWalk) :
      walk.network.Alike (entries.foldl (activateKey handle) walk).network := by
    induction entries generalizing walk with
    | nil => exact walk.network.alike_refl
    | cons first rest ih =>
      have head : walk.network.Alike (activateKey handle walk first).network := by
        unfold activateKey
        dsimp only
        split
        · exact walk.network.alike_refl
        · exact walk.network.alike_updateCell _ (fun _ => rfl) fun _ => rfl
      exact head.trans (ih _)
  have walked (turns : Nat) (walk : ActivationWalk) :
      walk.network.Alike (walkActivation turns walk).network := by
    induction turns generalizing walk with
    | zero => exact walk.network.alike_refl
    | succ turns ih =>
      unfold walkActivation
      split
      · exact walk.network.alike_refl
      · rename_i key rest _
        refine Alike.trans ?_ (ih _)
        unfold activateSubtree
        dsimp only
        split
        · exact walk.network.alike_refl
        · exact (walk.network.alike_ensure key).trans (activated key.tree _
            { walk with network := walk.network.ensure key, stack := rest,
                        seen := walk.seen.insert key })
  exact (walked (network.edgeCount + 1) ⟨network, [key], ∅, []⟩).trans (alike_of_trees rfl)

theorem Alike.composes (alike : network.Alike later) : network.Composes later where
  data := alike.roles.dataRole?
  frozen _ _ done := ⟨(alike.propagated _).trans done, fun _ _ => alike.value _⟩
  rendered _ _ done := Or.inl ⟨(alike.propagated _).symm.trans done, alike.value _⟩

/-- Satisfying an edge without a callback. -/
theorem alike_satisfy {waiter source : Address}
    (silent : ∀ edge, network.edge? waiter source = some edge → edge.callback = none) :
    network.Alike (network.satisfy waiter source).2 := by
  unfold satisfy
  cases held : network.cell? waiter >>= fun cell => cell.waiting[source]? with
  | none => exact network.alike_refl
  | some edge =>
    dsimp only
    split
    · exact network.alike_refl
    · rw [silent edge held]
      exact network.alike_updateCell waiter (fun _ => rfl) fun _ => rfl

/-! ## Completing keys -/

theorem value?_propagateKey (network : Network) (key query : Address) :
    (network.propagateKey key).value? query = network.value? query := by
  unfold value?
  rw [cell?_propagateKey]
  split
  · rename_i same
    rw [same]
    cases network.cell? key <;> rfl
  · rfl

theorem isPropagated_propagateKey_of_isPropagated {key query : Address}
    (done : network.isPropagated query = true) :
    (network.propagateKey key).isPropagated query = true := by
  obtain ⟨cell, found, propagated⟩ := isPropagated_iff.1 done
  rw [isPropagated_iff, cell?_propagateKey]
  split
  · rename_i same
    exact ⟨{ cell with propagated := true }, by rw [← same, found]; rfl, rfl⟩
  · exact ⟨cell, found, propagated⟩

/-- Completing a key that is no symbol. -/
theorem composes_propagateKey {key : Address}
    (ordinary : (network.dataRole? key.tree).isSome = true → key.path ≠ symbolPath) :
    network.Composes (network.propagateKey key) := by
  have roles : network.SameRoles (network.propagateKey key) := network.role_propagateKey key
  refine ⟨roles.dataRole?, fun handle _ done => ⟨isPropagated_propagateKey_of_isPropagated done,
    fun path _ => network.value?_propagateKey key _⟩, fun handle data done => Or.inl ⟨?_,
      network.value?_propagateKey key _⟩⟩
  have different : (⟨handle, symbolPath⟩ : Address) ≠ key := by
    rintro rfl
    exact ordinary data rfl
  unfold isPropagated at done ⊢
  rwa [cell?_propagateKey, if_neg different] at done

/-- A symbol is put together and completed. -/
theorem composes_symbol (network : Network) (handle : Handle) :
    network.Composes ((network.aggregateSymbol handle).propagateKey ⟨handle, symbolPath⟩) := by
  cases live : network.tree? handle with
  | none =>
    have same : network.aggregateSymbol handle = network := by simp [aggregateSymbol, live]
    rw [same]
    refine composes_propagateKey fun data => ?_
    obtain ⟨tree, found⟩ := tree?_of_dataRole? data
    simp [live] at found
  | some tree =>
    have made : network.aggregateSymbol handle = network.updateCell ⟨handle, symbolPath⟩
        fun cell => { cell with value := (renderSymbol tree).map .text } := by
      simp [aggregateSymbol, live]
    have cells (query : Address) (different : query ≠ ⟨handle, symbolPath⟩) :
        ((network.aggregateSymbol handle).propagateKey ⟨handle, symbolPath⟩).cell? query =
          network.cell? query := by
      rw [cell?_propagateKey, if_neg different, made, cell?_updateCell, if_neg different]
    have own : ((network.aggregateSymbol handle).propagateKey ⟨handle, symbolPath⟩).cell?
        ⟨handle, symbolPath⟩ = (network.cell? ⟨handle, symbolPath⟩).map fun cell =>
          { cell with value := (renderSymbol tree).map .text, propagated := true } := by
      rw [cell?_propagateKey, if_pos rfl, made, cell?_updateCell, if_pos rfl, Option.map_map]
      rfl
    have roles : network.SameRoles
        ((network.aggregateSymbol handle).propagateKey ⟨handle, symbolPath⟩) := by
      have propagated : (network.aggregateSymbol handle).SameRoles _ :=
        (network.aggregateSymbol handle).role_propagateKey ⟨handle, symbolPath⟩
      rw [made] at propagated ⊢
      exact (network.sameRoles_updateCell _ _).trans propagated
    have apart : ∀ {other : Handle} {path : Path}, path.isBelow symbolPath = true →
        (⟨other, path⟩ : Address) ≠ ⟨handle, symbolPath⟩ := by
      rintro other path below same
      obtain rfl : path = symbolPath := congrArg Address.path same
      simp [Path.isBelow] at below
    have values (other : Handle) (path : Path) (below : path.isBelow symbolPath = true) :
        ((network.aggregateSymbol handle).propagateKey ⟨handle, symbolPath⟩).value? ⟨other, path⟩ =
          network.value? ⟨other, path⟩ := by
      unfold value?
      rw [cells _ (apart below)]
    refine ⟨roles.dataRole?, fun other _ done => ⟨?_, values other⟩, fun other data done => ?_⟩
    · by_cases same : other = handle
      · subst same
        obtain ⟨cell, found, -⟩ := isPropagated_iff.1 done
        exact isPropagated_iff.2 ⟨_, by rw [own, found]; rfl, rfl⟩
      · unfold isPropagated at done ⊢
        rwa [cells _ fun equal => same (congrArg Address.tree equal)]
    · by_cases same : other = handle
      · subst same
        refine Or.inr fun after liveAfter => ?_
        obtain ⟨cell, found, -⟩ := isPropagated_iff.1 done
        rw [own] at found
        obtain ⟨before, foundBefore, -⟩ := Option.map_eq_some_iff.1 found
        have rendered : renderSymbol after = renderSymbol tree :=
          renderSymbol_congr fun path below => by
            rw [← value?_of_tree? liveAfter, ← value?_of_tree? live, values other path below]
        unfold value?
        rw [own, foundBefore, rendered]
        rfl
      · have different : (⟨other, symbolPath⟩ : Address) ≠ ⟨handle, symbolPath⟩ :=
          fun equal => same (congrArg Address.tree equal)
        refine Or.inl ⟨?_, ?_⟩
        · unfold isPropagated at done ⊢
          rwa [cells _ different] at done
        · unfold value?
          rw [cells _ different]

/-- Running what belongs to a key that is not the root of a command. -/
theorem composes_runAndPropagate (cascade : Cascade) {key : Address}
    (ordinary : key.path ≠ Path.root ∨ network.command? key.tree = none) :
    network.Composes (network.runAndPropagate cascade key) := by
  unfold runAndPropagate runKey
  cases live : network.tree? key.tree with
  | none =>
    refine composes_propagateKey fun data => ?_
    obtain ⟨tree, found⟩ := tree?_of_dataRole? data
    simp [live] at found
  | some tree =>
    cases role : tree.role with
    | data role =>
      simp only [Option.map_some, role]
      split
      · rename_i symbol
        cases key
        subst symbol
        exact network.composes_symbol _
      · rename_i other
        exact composes_propagateKey fun _ => other
    | variableTable =>
      simp only [Option.map_some, role]
      exact composes_propagateKey fun data => by simp [dataRole?, live, role] at data
    | plain =>
      simp only [Option.map_some, role]
      exact composes_propagateKey fun data => by simp [dataRole?, live, role] at data
    | command command =>
      have lower : key.path ≠ Path.root :=
        ordinary.resolve_right fun none => by
          rw [command?_eq_some_iff.2 ⟨tree, live, role⟩] at none
          cases none
      simp only [Option.map_some, role, if_neg lower]
      exact composes_propagateKey fun data => by simp [dataRole?, live, role] at data

/-- What stands at or below complete symbols lies outside of what a command may write. -/
def Clears (network : Network) (target : Address) : Prop :=
  ∀ handle, (network.dataRole? handle).isSome = true →
    network.isPropagated ⟨handle, symbolPath⟩ = true → handle = target.tree →
      ∀ path : Path, path.isWithin symbolPath = true → path.isWithin target.path = false

theorem Sound.composes_carryOut {network : Network} (sound : network.Sound)
    (command : Command.Compiled) {target : Address} (clears : network.Clears target) :
    network.Composes (network.carryOut command target) := by
  have tame := sound.tame_carryOut command target
  have untouched (handle : Handle) (data : (network.dataRole? handle).isSome = true)
      (done : network.isPropagated ⟨handle, symbolPath⟩ = true) (path : Path)
      (within : path.isWithin symbolPath = true) :
      network.Untouched (network.carryOut command target) ⟨handle, path⟩ :=
    network.untouched_carryOut
      (not_touches_of_outside fun same => clears handle data done same path within)
  have own := Path.isWithin_refl symbolPath
  refine ⟨tame.sameRoles.dataRole?, fun handle data done => ⟨?_, fun path below => ?_⟩,
    fun handle data done => ?_⟩
  · rw [(untouched handle data done symbolPath own).isPropagated]
    exact done
  · exact (untouched handle data done path (Bool.and_eq_true_iff.1 below).1).value?
  · have before := (tame.stride.propagated _ done).resolve_right id
    exact Or.inl ⟨before, (untouched handle data before symbolPath own).value?⟩

theorem dataRole?_markExecuted {handle : Handle} {command : Command.Compiled}
    (found : network.command? handle = some command) (query : Handle) :
    (network.markExecuted handle command).dataRole? query = network.dataRole? query := by
  obtain ⟨tree, live, role⟩ := command?_eq_some_iff.1 found
  unfold dataRole? markExecuted setCommand
  rw [tree?_updateTree]
  by_cases same : query = handle
  · rw [if_pos same, same, live]
    simp [role]
  · rw [if_neg same]

/-- A command that binds nothing and writes clear of the complete symbols is executed. -/
theorem Sound.composes_execute {network : Network} (sound : network.Sound) (cascade : Cascade)
    {handle : Handle} {command : Command.Compiled} (found : network.command? handle = some command)
    (unbound : command.bind = none)
    (clears : command.executed = false → ∀ target, command.target = some target →
      network.Clears target) : network.Composes (network.execute cascade handle) := by
  have cells (query : Address) : (network.markExecuted handle command).cell? query =
      network.cell? query := network.cell?_setCommand handle _ query
  have values (query : Address) : (network.markExecuted handle command).value? query =
      network.value? query := by unfold value?; rw [cells]
  have marks (query : Address) : (network.markExecuted handle command).isPropagated query =
      network.isPropagated query := by unfold isPropagated; rw [cells]
  have data := dataRole?_markExecuted found
  have marked : network.Composes (network.markExecuted handle command) :=
    ⟨data, fun _ _ done => ⟨(marks _).trans done, fun _ _ => values _⟩,
      fun _ _ done => Or.inl ⟨(marks _).symm.trans done, values _⟩⟩
  have soundMarked : (network.markExecuted handle command).Sound :=
    (sound.advances_setCommand found _).sound
  rw [execute_eq]
  simp only [found]
  split
  · exact network.composes_refl
  rename_i fresh
  cases aimed : command.target with
  | none => exact marked
  | some target =>
    simp only [unbound]
    refine marked.trans (soundMarked.composes_carryOut command fun other dataRole done => ?_)
    rw [data] at dataRole
    rw [marks] at done
    exact clears (by simpa using fresh) target aimed other dataRole done

/-! ## Passages -/

/-- Moves, and edits between them that leave values and marks alone. -/
inductive Passage : Network → List Look → Network → Prop
  | refl (network : Network) : Passage network [] network
  | move {first second third : Network} {looks later : List Look} (move : Move first looks second)
      (rest : Passage second later third) : Passage first (looks ++ later) third
  | edit {first second third : Network} {looks : List Look} (tame : first.Tame second)
      (alike : first.Alike second) (rest : Passage second looks third) : Passage first looks third

theorem Passage.trans {first second third : Network} {looks later : List Look}
    (earlier : Passage first looks second) (rest : Passage second later third) :
    Passage first (looks ++ later) third := by
  induction earlier with
  | refl => exact rest
  | move move _ ih =>
    rw [List.append_assoc]
    exact .move move (ih rest)
  | edit tame alike _ ih => exact .edit tame alike (ih rest)

theorem Run.passage {looks : List Look} (run : Run network looks later) :
    Passage network looks later := by
  induction run with
  | refl => exact .refl _
  | step move _ ih => exact .move move ih

theorem Passage.advances {looks : List Look} (passage : Passage network looks later)
    (sound : network.Sound) : network.Advances later := by
  induction passage with
  | refl => exact sound.advances_refl
  | move move _ ih =>
    have first := move.advances sound
    exact first.trans (ih first.sound)
  | edit tame _ _ ih =>
    have first := sound.advances_tame tame
    exact first.trans (ih first.sound)

theorem Sound.passage_drainSteps (steps : Nat) {network : Network} (sound : network.Sound) :
    Passage network (drainStepsLooks steps network) (network.drainSteps steps) := by
  induction steps generalizing network with
  | zero =>
    unfold drainStepsLooks drainSteps
    cases network.agenda.pop? with
    | none => exact .refl network
    | some pair =>
      obtain ⟨event, agenda⟩ := pair
      have dropped : network.Tame
          { ({ network with agenda } : Network).countEvent with agenda := .empty } :=
        sound.tame_of_trees rfl fun _ _ member => by simp [Agenda.empty] at member
      exact .edit dropped (alike_of_trees rfl) (.refl _)
  | succ steps ih =>
    unfold drainStepsLooks drainSteps
    cases taken : network.agenda.pop? with
    | none => exact .refl network
    | some pair =>
      obtain ⟨event, agenda⟩ := pair
      obtain ⟨listed, left⟩ := mem_of_pop? taken
      dsimp only
      have taking : network.Tame ({ network with agenda } : Network).countEvent :=
        sound.tame_of_trees rfl fun _ _ => left _
      have soundTaken := sound.tame taking
      have handled := soundTaken.run_handle event fun waiter source same =>
        (sound.queued waiter source (same ▸ listed)).evolve taking.evolves
      exact .edit taking (alike_of_trees rfl)
        (handled.passage.trans (ih (handled.advances soundTaken).sound))

theorem Sound.passage_drain {network : Network} (sound : network.Sound) :
    Passage network (drainLooks network) network.drain :=
  sound.passage_drainSteps network.maxSteps

end ConceptLaws.Propagation.Network
