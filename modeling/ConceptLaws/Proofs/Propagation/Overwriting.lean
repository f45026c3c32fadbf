import ConceptLaws.Proofs.Propagation.Deeds
import ConceptLaws.Proofs.Propagation.Writing

/-! Which assignment counts.
A key of a data tree changes only when a command that writes there is carried out. So the key holds
in the end what the last one of them left there; of an assignment that is its result. -/

namespace ConceptLaws.Command

/-- A plain assignment that runs through no sub-tree. -/
structure Compiled.IsAssignment (command : Compiled) : Prop where
  action : command.action = .assign
  plain : command.isRecursive = false

theorem Compiled.IsAssignment.grows {command later : Compiled} (assigns : command.IsAssignment)
    (grows : command.Grows later) : later.IsAssignment :=
  ⟨grows.action.trans assigns.action, grows.recursive.trans assigns.plain⟩

end ConceptLaws.Command

namespace ConceptLaws.Propagation.Network

open Command (Compiled)

variable {network later : Network} {key : Address}

/-! ## One assignment -/

theorem suffixes_of_isAssignment {command : Compiled} (assigns : command.IsAssignment) :
    network.suffixes command = [Path.root] := by
  obtain ⟨target, blocks⟩ := Bool.or_eq_false_iff.1 assigns.plain
  have sources : command.blocks.flatMap recursiveSources = [] := by
    rw [List.flatMap_eq_nil_iff]
    intro block member
    have bare := List.any_eq_false.1 blocks block member
    cases block with
    | text => rfl
    | sources keys recursive =>
      obtain rfl : recursive = false := by simpa [Command.BoundBlock.isRecursive] using bare
      rfl
  have tops : recursiveTops command = [] := by simp [recursiveTops, sources, target]
  simp [suffixes, tops]

theorem touches_iff_of_isAssignment {command : Compiled} (assigns : command.IsAssignment)
    {target : Address} : network.Touches command target key ↔ key = target := by
  simp [Touches, assigns.action, suffixes_of_isAssignment assigns, Address.below, Path.join,
    Path.root]

/-- Nothing becomes primary data. -/
theorem Retains.shielded (retains : network.Retains later)
    (data : (network.dataRole? key.tree).isSome = true) (shielded : later.Shielded key) :
    network.Shielded key := by
  obtain ⟨above, within, known⟩ := shielded
  exact ⟨above, within, retains.known ⟨key.tree, above⟩ data known⟩

theorem fst_write (value : Datum) : (network.write key value).1 = true ↔
    (network.tree? key.tree).isSome = true ∧ ¬network.Shielded key := by
  unfold write
  cases live : network.tree? key.tree with
  | none => simp
  | some tree =>
    rw [← isUnderKnown_iff live]
    cases under : tree.isUnderKnown key.path <;> simp [under]

/-- A value that is written is there; one that is not written leaves what was there. -/
theorem value?_write (value : Datum) : (network.write key value).2.value? key =
    if (network.write key value).1 then some value else network.value? key := by
  unfold write
  cases live : network.tree? key.tree with
  | none => rfl
  | some tree =>
    obtain ⟨cell, present⟩ := tree.cell?_ensure_self key.path
    have ensured : (network.ensure key).cell? key = some cell :=
      cell?_eq_some_iff.2
        ⟨tree.ensure key.path, by rw [tree?_ensure, if_pos rfl, live]; rfl, present⟩
    cases under : tree.isUnderKnown key.path with
    | true => simp [under]
    | false =>
      simp only [under, Bool.false_eq_true, ↓reduceIte]
      rw [(untouched_noteChange _ key key).value?, ensureWith_eq]
      unfold value?
      rw [cell?_updateCell, if_pos rfl, ensured]
      rfl

/-- What an assignment leaves at its target: its result, if there is one and it is written, or else
what was there before. -/
def outcome (network : Network) (command : Compiled) (target : Address) : Option Datum :=
  match network.evaluateAt command Path.root with
  | .ok value => if (network.write target value).1 then some value else network.value? target
  | .error _ => network.value? target

/-- Unless the target is primary data the result is written. -/
theorem outcome_of_not_shielded {command : Compiled} {value : Datum}
    (evaluated : network.evaluateAt command Path.root = .ok value)
    (live : (network.tree? key.tree).isSome = true) (derived : ¬network.Shielded key) :
    network.outcome command key = some value := by
  unfold outcome
  rw [evaluated]
  exact if_pos ((fst_write value).2 ⟨live, derived⟩)

theorem value?_carryOut {command : Compiled} (assigns : command.IsAssignment) :
    (network.carryOut command key).value? key = network.outcome command key := by
  have here : key.below Path.root = key := by simp [Address.below, Path.join, Path.root]
  unfold carryOut applyResults outcome
  dsimp only
  generalize counting : network.updateCounts
    (fun counts => { counts with commands := counts.commands + 1 }) = counted
  have same : counted.trees = network.trees := by rw [← counting]; rfl
  have evaluated : counted.evaluateAt command Path.root = network.evaluateAt command Path.root := by
    rw [← counting]
    rfl
  rw [if_neg (by simp [assigns.action]), suffixes_of_isAssignment assigns, List.map_singleton,
    evaluated, List.foldl_cons, List.foldl_nil, here]
  have untouched := (untouched_of_trees same key).value?
  cases network.evaluateAt command Path.root with
  | error => exact untouched
  | ok value =>
    have written : (counted.write key value).1 = (network.write key value).1 := by
      rw [← counting]
      unfold write
      dsimp only [updateCounts, tree?]
      split
      · rfl
      · split <;> rfl
    simp only [applyAction, assigns.action]
    rw [value?_write, written, untouched]

/-! ## A trace of deeds -/

/-- A trace may be cut at a command. -/
theorem Trace.split {between : Network → Network → Prop} {before after : List Deed} {at_ : Network}
    {handle : Handle} {command : Compiled} {target : Address}
    (trace : Trace between network (before ++ .command at_ handle command target :: after) later) :
    ∃ first : Network, Trace between network before first ∧
      first.command? handle = some command ∧ at_ = first.markExecuted handle command ∧
        Trace between (at_.carryOut command target) after later := by
  generalize listed : before ++ .command at_ handle command target :: after = deeds at trace
  induction trace generalizing before with
  | refl => simp at listed
  | edit change _ ih =>
    obtain ⟨first, past, rest⟩ := ih listed
    exact ⟨first, .edit change past, rest⟩
  | callback held _ ih =>
    obtain ⟨rfl, same⟩ | ⟨more, rfl, tail⟩ := List.append_eq_cons_iff.1 listed
    · cases (List.cons.inj same).1
    · obtain ⟨first, past, rest⟩ := ih tail.symm
      exact ⟨first, .callback held past, rest⟩
  | @command start _ _ owner done aim found fresh aimed future ih =>
    obtain ⟨rfl, same⟩ | ⟨more, rfl, tail⟩ := List.append_eq_cons_iff.1 listed
    · obtain ⟨here, rfl⟩ := List.cons.inj same
      cases here
      exact ⟨start, .refl start, found, rfl, future⟩
    · obtain ⟨first, past, rest⟩ := ih tail.symm
      exact ⟨first, .command found fresh aimed past, rest⟩

/-- A command that is carried out is there by then, with all that was there before. -/
theorem Trace.of_mem {deeds : List Deed} (trace : Trace Quiet network deeds later)
    (sound : network.trees.Sound) {at_ : Network} {handle : Handle} {command : Compiled}
    {target : Address} (member : .command at_ handle command target ∈ deeds) :
    ∃ first : Network, network.Retains first ∧ first.command? handle = some command ∧
      first.Retains at_ ∧ first.Retains later := by
  obtain ⟨before, after, rfl⟩ := List.append_of_mem member
  obtain ⟨first, past, found, rfl, rest⟩ := trace.split
  have reached := past.retains sound
  have executed := retains_command found target
  exact ⟨first, reached, found, (quiet_markExecuted found).toRetains,
    executed.trans (rest.retains (executed.sound (reached.sound sound)))⟩

theorem Trace.issued_of_mem {deeds : List Deed} (trace : Trace Quiet network deeds later)
    (sound : network.trees.Sound) {at_ : Network} {handle : Handle} {command : Compiled}
    {target : Address} (member : .command at_ handle command target ∈ deeds) :
    later.trees.Issued handle := by
  obtain ⟨first, -, found, -, rest⟩ := trace.of_mem sound member
  obtain ⟨tree, live, -⟩ := command?_eq_some_iff.1 found
  exact rest.issued handle (issued_of_tree? live)

/-- A command that is carried out and may change what stands at a key. -/
def WritesAt (key : Address) : Deed → Prop
  | .command at_ _ command target => at_.Touches command target key
  | .callback _ _ => False

/-- What no command writes stays. -/
theorem Trace.value?_eq {deeds : List Deed} (trace : Trace Quiet network deeds later)
    (sound : network.trees.Sound) (data : (network.dataRole? key.tree).isSome = true)
    (ordinary : key.path ≠ symbolPath) (spared : ∀ deed ∈ deeds, ¬WritesAt key deed) :
    later.value? key = network.value? key := by
  induction trace with
  | refl => rfl
  | edit change _ ih =>
    have quiet := (change sound).toStill
    rw [ih (quiet.sound sound) (quiet.isData data) spared]
    exact quiet.values key data ordinary
  | @callback first _ _ waiter source _ _ _ ih =>
    have satisfied := first.still_satisfy waiter source
    rw [ih (satisfied.sound sound) (satisfied.isData data)
      fun deed member => spared deed (List.mem_cons_of_mem _ member)]
    exact satisfied.values key data ordinary
  | @command first _ _ handle command target found _ _ _ ih =>
    have executed := retains_command found target
    rw [ih (executed.sound sound) (executed.isData data)
      fun deed member => spared deed (List.mem_cons_of_mem _ member)]
    have untouched := untouched_carryOut (first.markExecuted handle command)
      (spared (.command _ handle command target) List.mem_cons_self)
    rw [untouched.value?]
    exact (quiet_markExecuted found).values key data ordinary

/-- After the last command that writes at a key, if that is an assignment to it, the key holds what
that one left there. -/
theorem Trace.value?_eq_outcome {before after : List Deed} {at_ : Network} {handle : Handle}
    {command : Compiled}
    (trace : Trace Quiet network (before ++ .command at_ handle command key :: after) later)
    (sound : network.trees.Sound) (data : (network.dataRole? key.tree).isSome = true)
    (ordinary : key.path ≠ symbolPath) (assigns : command.IsAssignment)
    (spared : ∀ deed ∈ after, ¬WritesAt key deed) :
    later.value? key = at_.outcome command key := by
  obtain ⟨first, past, found, rfl, rest⟩ := trace.split
  have executed := (past.retains sound).trans (retains_command found key)
  rw [rest.value?_eq (executed.sound sound) (executed.isData data) ordinary spared]
  exact value?_carryOut assigns

end ConceptLaws.Propagation.Network
