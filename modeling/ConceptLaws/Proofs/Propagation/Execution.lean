import ConceptLaws.Proofs.Propagation.Activation
import ConceptLaws.Propagation.Execution

/-! Execution as an edit.
Carrying out a command is tame: it writes values, adds keys, and erases leaves that take part in no
edge. Binding a variable runs a cascade, of which only is asked that it keeps networks in order. -/

namespace ConceptLaws.Propagation.Network

/-! ## Values -/

theorem Founded.tame_ensureWith {network : Network} (founded : network.Founded) (key : Address)
    {change : Cell → Cell} (same : ∀ cell : Cell, cell.SameState (change cell)) :
    network.Tame (network.ensureWith key change) := by
  rw [ensureWith_eq]
  have ensured := founded.tame_ensure key
  exact ensured.trans (ensured.founded.tame_updateCell key same)

theorem Founded.tame_noteChange {network : Network} (founded : network.Founded) (key : Address) :
    network.Tame (network.noteChange key) := by
  unfold noteChange
  split
  · exact founded.tame_of_trees rfl fun _ _ => id
  · exact founded.tame_refl

theorem Founded.tame_write {network : Network} (founded : network.Founded) (key : Address)
    (value : Datum) : network.Tame (network.write key value).2 := by
  unfold write
  split
  · exact founded.tame_refl
  · split
    · exact founded.tame_refl
    · have written : network.Tame (network.ensureWith key fun cell =>
          { cell.replace (some value) with locked := true }) :=
        founded.tame_ensureWith key fun _ => ⟨⟨rfl, rfl, rfl, rfl, rfl⟩, rfl⟩
      exact written.trans (written.founded.tame_noteChange key)

theorem Founded.tame_accumulate {network : Network} (founded : network.Founded)
    (operation : Arithmetic.Operator) (key : Address) (value : Datum) :
    network.Tame (network.accumulate operation key value) := by
  unfold accumulate
  split
  · exact founded.tame_write key value
  · split
    · exact founded.tame_write key _
    · exact founded.tame_refl

theorem Founded.tame_appendChild {network : Network} (founded : network.Founded) (key : Address)
    (value : Datum) : network.Tame (network.appendChild key value).2 := by
  unfold appendChild
  split
  · exact founded.tame_refl
  · exact founded.tame_write _ value

theorem Founded.tame_appendValue {network : Network} (founded : network.Founded) (key : Address)
    (value : Datum) : network.Tame (network.appendValue key value).2 := by
  unfold appendValue
  split <;> exact founded.tame_write key _

theorem Founded.tame_dropValue {network : Network} (founded : network.Founded) (key : Address) :
    network.Tame (network.dropValue key) :=
  founded.tame_updateCell key fun _ => ⟨⟨rfl, rfl, rfl, rfl, rfl⟩, rfl⟩

/-- Only keys that take part in no edge are erased, and values change nothing about that. -/
theorem Founded.tame_clearKey {network : Network} (founded : network.Founded) (key : Address) :
    network.Tame (network.clearKey key) := by
  unfold clearKey
  split
  · exact founded.tame_refl
  · rename_i tree live
    have emptied : network.Tame ((((tree.subtree key.path).drop 1).map Prod.fst).foldl
        (fun network path => network.dropValue ⟨key.tree, path⟩) (network.dropValue key)) := by
      have top := founded.tame_dropValue key
      exact top.trans (top.founded.tame_foldl _ _ fun later tame path _ =>
        tame.founded.tame_dropValue ⟨key.tree, path⟩)
    refine emptied.trans (emptied.founded.tame_foldl _ _ fun later tame path member => ?_)
    refine tame.founded.tame_eraseLeaf ((emptied.trans tame).unlinked fun cell found => ?_)
    obtain ⟨⟨listed, held⟩, filtered, rfl⟩ := List.mem_map.1 (List.mem_mergeSort.1 member)
    obtain ⟨inside, unlinked⟩ := List.mem_filter.1 filtered
    obtain ⟨present, -⟩ := Tree.mem_subtree.1 (List.mem_of_mem_drop inside)
    obtain ⟨other, liveOther, foundOther⟩ := cell?_eq_some_iff.1 found
    obtain rfl : tree = other := Option.some.inj (live.symm.trans liveOther)
    obtain rfl : held = cell := Option.some.inj (present.symm.trans foundOther)
    exact unlinked

theorem Founded.tame_aggregateSymbol {network : Network} (founded : network.Founded)
    (handle : Handle) : network.Tame (network.aggregateSymbol handle) := by
  unfold aggregateSymbol
  split
  · exact founded.tame_refl
  · exact founded.tame_updateCell _ fun _ => ⟨⟨rfl, rfl, rfl, rfl, rfl⟩, rfl⟩

/-! ## Commands -/

theorem Founded.tame_applyAction {network : Network} (founded : network.Founded)
    (action : Command.Action) (key : Address) (value : Datum) :
    network.Tame (network.applyAction action key value) := by
  cases action with
  | assign => exact founded.tame_write key value
  | increase => exact founded.tame_accumulate _ key value
  | decrease => exact founded.tame_accumulate _ key value
  | scale => exact founded.tame_accumulate _ key value
  | addChild => exact founded.tame_appendChild key value
  | addValue => exact founded.tame_appendValue key value
  | clear => exact founded.tame_clearKey key

theorem Founded.tame_carryOut {network : Network} (founded : network.Founded)
    (command : Command.Compiled) (target : Address) :
    network.Tame (network.carryOut command target) := by
  unfold carryOut
  have counted := founded.tame_updateCounts fun counts =>
    { counts with commands := counts.commands + 1 }
  split
  · exact counted.trans (counted.founded.tame_clearKey target)
  · refine counted.trans (counted.founded.tame_foldl _ _ fun later tame result _ => ?_)
    obtain ⟨suffix, outcome⟩ := result
    cases outcome with
    | ok value => exact tame.founded.tame_applyAction _ _ value
    | error fault => exact tame.founded.tame_refl

/-- What is asked of a cascade. -/
def Orderly (cascade : Cascade) : Prop :=
  ∀ network : Network, network.Sound → network.Advances (cascade network)

theorem orderly_id : Orderly id := fun _ sound => sound.advances_refl

theorem Sound.advances_setKnown {network : Network} (sound : network.Sound) {cascade : Cascade}
    (orderly : Orderly cascade) (key : Address) (recursive : Bool) :
    network.Advances (network.setKnown cascade key recursive) := by
  unfold setKnown
  split
  · exact sound.advances_refl
  · dsimp only
    have top : network.Advances (network.ensureWith key fun cell => { cell with known := true }) :=
      sound.advances_ensureWith key fun _ => ⟨rfl, rfl, rfl, rfl⟩
    generalize network.ensureWith key (fun cell => { cell with known := true }) = ensured at *
    have below : ensured.Advances (if recursive then
        ensured.updateTree key.tree fun tree =>
          (tree.subtreePaths key.path).foldl
            (fun tree path => tree.update path fun cell => { cell with known := true }) tree
      else ensured) := by
      split
      · obtain ⟨paths, same⟩ := ensured.updateTree_subtree key.tree key.path
          fun cell => { cell with known := true }
        rw [same]
        exact top.sound.advances_foldl _ _ fun later advances path _ =>
          advances.sound.advances_relabel _ fun _ => ⟨rfl, rfl, rfl, rfl⟩
      · exact top.sound.advances_refl
    refine (top.trans below).trans ?_
    generalize (if recursive then _ else ensured) = later at *
    have pushed : later.Advances (later.updateAgenda fun agenda => agenda.pushCheck key) :=
      below.sound.advances_tame (below.sound.tame_of_trees rfl fun _ _ => resolve_mem_pushCheck.1)
    exact pushed.trans (orderly _ pushed.sound)

theorem Sound.advances_bindVariable {network : Network} (sound : network.Sound) {cascade : Cascade}
    (orderly : Orderly cascade) (variableTable : Handle) (name : String) (target : Address) :
    network.Advances (network.bindVariable cascade variableTable name target) := by
  unfold bindVariable
  split
  · rename_i role found
    obtain ⟨tree, live, roleTree⟩ := Option.map_eq_some_iff.1 found
    dsimp only
    have bound : network.Advances (network.updateTree variableTable fun tree => { tree with
        role := .variableTable { role with bindings := role.bindings.insert name target } }) := by
      refine sound.advances_recast fun other liveOther => ?_
      obtain rfl : tree = other := Option.some.inj (live.symm.trans liveOther)
      rw [roleTree]
      rfl
    rw [ensureWith_eq]
    have ensured := bound.sound.advances_tame
      (bound.sound.tame_ensure (variableKey variableTable name))
    have activated := ensured.sound.advances_activate (variableKey variableTable name)
      fun after liveAfter plain => by
        obtain ⟨later, liveLater, same⟩ := (bound.trans ensured).evolves.live _ tree live
        obtain rfl : after = later := Option.some.inj (liveAfter.symm.trans liveLater)
        rw [same, roleTree] at plain
        simp [Role.isVariables] at plain
    have before := (bound.trans ensured).trans activated
    exact before.trans (before.sound.advances_setKnown orderly _ false)
  · exact sound.advances_refl

theorem command?_eq_some_iff {network : Network} {handle : Handle} {command : Command.Compiled} :
    network.command? handle = some command ↔
      ∃ tree, network.tree? handle = some tree ∧ tree.role = .command command := by
  unfold command?
  cases network.tree? handle with
  | none => simp
  | some tree => cases role : tree.role <;> simp [role]

theorem Sound.advances_setCommand {network : Network} (sound : network.Sound) {handle : Handle}
    {command : Command.Compiled} (found : network.command? handle = some command)
    (later : Command.Compiled) : network.Advances (network.setCommand handle later) := by
  obtain ⟨tree, live, role⟩ := command?_eq_some_iff.1 found
  refine sound.advances_recast fun other liveOther => ?_
  obtain rfl : tree = other := Option.some.inj (live.symm.trans liveOther)
  rw [role]
  rfl

theorem Sound.advances_execute {network : Network} (sound : network.Sound) {cascade : Cascade}
    (orderly : Orderly cascade) (handle : Handle) :
    network.Advances (network.execute cascade handle) := by
  unfold execute
  split
  · exact sound.advances_refl
  · rename_i command found
    split
    · exact sound.advances_refl
    · dsimp only
      have marked := sound.advances_setCommand found { command with executed := true }
      split
      · exact marked
      · rename_i target _
        have carried := marked.trans
          (marked.sound.advances_tame (marked.sound.tame_carryOut command target))
        split
        · exact carried.trans (carried.sound.advances_bindVariable orderly _ _ _)
        · exact carried

theorem Sound.advances_bindCommand {network : Network} (sound : network.Sound) (handle : Handle)
    (source : Address) (callback : Callback) :
    network.Advances (network.bindCommand handle source callback) := by
  unfold bindCommand
  split
  · exact sound.advances_refl
  · split
    · rename_i binding command bound found
      cases callback with
      | bindTarget =>
        have renamed := sound.advances_setCommand found
          { command with target := some (binding.below command.targetSuffix) }
        exact renamed.trans (renamed.sound.advances_waitOn _ _ none)
      | bindBlock place =>
        dsimp only
        split
        · exact sound.advances_refl
        · rename_i key blocks _
          have extended := sound.advances_setCommand found { command with blocks := blocks }
          exact extended.trans (extended.sound.advances_waitOn _ key none)
    · exact sound.advances_refl

end ConceptLaws.Propagation.Network
