import ConceptLaws.Proofs.Past.Activation

/-! Execution with a past.
A command finds the same values at its sources and writes the same to its targets; a variable is bound
to the renamed key. -/

namespace ConceptLaws.Past

open Propagation Command

variable (past : Past) (network : Network)

/-! ## Evaluation -/

@[simp] theorem nearestValue?_network (source : Address) (suffix : Path) :
    (past.network network).nearestValue? (past.key source) suffix =
      network.nearestValue? source suffix := by
  simp [Network.nearestValue?]

@[simp] theorem fenced_network (command : Compiled) (source : Address) (value : Datum) :
    (past.network network).fenced (past.command command) (past.key source) value =
      network.fenced command source value := by
  simp [Network.fenced]

@[simp] theorem operand?_network (command : Compiled) (recursive : Bool) (suffix : Path)
    (source : Address) :
    (past.network network).operand? (past.command command) recursive suffix (past.key source) =
      network.operand? command recursive suffix source := by
  have fenced : (past.network network).fenced (past.command command) (past.key source) =
      network.fenced command source :=
    funext (past.fenced_network network command source)
  simp [Network.operand?, fenced]

@[simp] theorem blockPart_network (command : Compiled) (suffix : Path) (block : BoundBlock) :
    (past.network network).blockPart (past.command command) suffix (past.block block) =
      network.blockPart command suffix block := by
  cases block with
  | text content => rfl
  | sources keys recursive below =>
    have values : (keys.map past.key).filterMap
          ((past.network network).operand? (past.command command) recursive suffix) =
        keys.filterMap (network.operand? command recursive suffix) := by
      simp [List.filterMap_map, Function.comp_def]
    simp only [Network.blockPart, Past.block, values]
    generalize keys.filterMap (network.operand? command recursive suffix) = present
    rcases keys with _ | ⟨first, _ | ⟨second, rest⟩⟩ <;> cases present <;> rfl

@[simp] theorem evaluateAt_network (command : Compiled) (suffix : Path) :
    (past.network network).evaluateAt (past.command command) suffix =
      network.evaluateAt command suffix := by
  have parts : (past.command command).blocks.map
        ((past.network network).blockPart (past.command command) suffix) =
      command.blocks.map (network.blockPart command suffix) := by
    simp [Function.comp_def]
  rw [Network.evaluateAt, parts]
  rfl

@[simp] theorem recursiveTops_command (command : Compiled) :
    Network.recursiveTops (past.command command) =
      (Network.recursiveTops command).map past.key := by
  have sources (block : BoundBlock) : Network.recursiveSources (past.block block) =
      (Network.recursiveSources block).map past.key := by
    cases block with
    | text content => rfl
    | sources keys recursive suffix => cases recursive <;> rfl
  have listed : (past.command command).blocks.flatMap Network.recursiveSources =
      (command.blocks.flatMap Network.recursiveSources).map past.key := by
    simp [List.flatMap_map, List.map_flatMap, sources]
  simp only [Network.recursiveTops, listed, List.isEmpty_map, recursiveTarget_command,
    target_command]
  split
  · cases command.target <;> rfl
  · rfl

@[simp] theorem valuedBelow_network (top : Address) :
    (past.network network).valuedBelow (past.key top) = network.valuedBelow top := by
  unfold Network.valuedBelow
  rw [tree_key, tree?_network]
  cases network.tree? top.tree with
  | none => rfl
  | some tree =>
    simp only [Option.map_some, path_key, descendants_tree, List.filterMap_map]
    rfl

@[simp] theorem suffixes_network (command : Compiled) :
    (past.network network).suffixes (past.command command) = network.suffixes command := by
  simp [Network.suffixes, List.foldl_map]

@[simp] theorem accumulate_network (operation : Arithmetic.Operator) (key : Address)
    (value : Datum) : (past.network network).accumulate operation (past.key key) value =
      past.network (network.accumulate operation key value) := by
  unfold Network.accumulate
  rw [value?_network]
  cases network.value? key with
  | none => simp
  | some current =>
    dsimp only
    cases Arithmetic.combine operation current value <;> simp

@[simp] theorem applyAction_network (action : Action) (key : Address) (value : Datum) :
    (past.network network).applyAction action (past.key key) value =
      past.network (network.applyAction action key value) := by
  cases action <;> simp [Network.applyAction]

@[simp] theorem applyResults_network (command : Compiled) (target : Address) :
    (past.network network).applyResults (past.command command) (past.key target) =
      past.network (network.applyResults command target) := by
  unfold Network.applyResults
  simp only [suffixes_network, evaluateAt_network]
  refine past.foldl_network (fun network result => ?_) _ network
  obtain ⟨suffix, outcome⟩ := result
  cases outcome with
  | ok value => exact past.applyAction_network network command.action (target.below suffix) value
  | error fault => rfl

@[simp] theorem carryOut_network (command : Compiled) (target : Address) :
    (past.network network).carryOut (past.command command) (past.key target) =
      past.network (network.carryOut command target) := by
  unfold Network.carryOut
  simp only [updateCounts_network, clearKey_network, applyResults_network]
  change (if command.action = .clear then _ else _) = _
  split <;> rfl

/-! ## Variables and commands -/

/-- What is asked of a cascade. -/
def Carries (cascade : Network.Cascade) : Prop :=
  ∀ network, cascade (past.network network) = past.network (cascade network)

theorem carries_id : past.Carries id := fun _ => rfl

variable {cascade : Network.Cascade} (carries : past.Carries cascade)

theorem pushCheck_network (key : Address) :
    (past.network network).updateAgenda (fun agenda => agenda.pushCheck (past.key key)) =
      past.network (network.updateAgenda fun agenda => agenda.pushCheck key) :=
  past.updateAgenda_network network (past.pushCheck_agenda network.agenda key)

include carries in
theorem setKnown_network (key : Address) :
    (past.network network).setKnown cascade (past.key key) false =
      past.network (network.setKnown cascade key false) := by
  have known : (past.network network).ensureWith (past.key key)
      (fun cell => { cell with known := true }) =
        past.network (network.ensureWith key fun cell => { cell with known := true }) :=
    past.ensureWith_network network key fun _ => rfl
  unfold Network.setKnown
  rw [tree_key, tree?_network]
  cases network.tree? key.tree with
  | none => rfl
  | some tree =>
    simp only [Option.map_some, known, Bool.false_eq_true, ↓reduceIte, pushCheck_network,
      carries _]

@[simp] theorem variableKey_network (variableTable : Handle) (name : String) :
    Network.variableKey (past.handle variableTable) name =
      past.key (Network.variableKey variableTable name) := rfl

theorem bind_variableRole (role : VariableRole) (name : String) (target : Address) :
    { past.variableRole role with
        bindings := (past.variableRole role).bindings.insert name (past.key target) } =
      past.variableRole { role with bindings := role.bindings.insert name target } := by
  have bindings : (role.bindings.map fun _ key => past.key key).insert name (past.key target) =
      (role.bindings.insert name target).map fun _ key => past.key key := by
    apply Std.ExtTreeMap.ext_getElem?
    intro other
    simp only [Std.ExtTreeMap.getElem?_insert, Std.ExtTreeMap.getElem?_map]
    split <;> rfl
  simp only [Past.variableRole, bindings]

include carries in
theorem bindVariable_network (variableTable : Handle) (name : String) (target : Address) :
    (past.network network).bindVariable cascade (past.handle variableTable) name
        (past.key target) =
      past.network (network.bindVariable cascade variableTable name target) := by
  unfold Network.bindVariable
  rw [tree?_network]
  cases network.tree? variableTable with
  | none => rfl
  | some tree =>
    obtain ⟨role, keys⟩ := tree
    cases role with
    | variableTable role =>
      have bound : (past.network network).updateTree (past.handle variableTable) (fun tree =>
          { tree with role := .variableTable { past.variableRole role with
              bindings := (past.variableRole role).bindings.insert name (past.key target) } }) =
            past.network (network.updateTree variableTable fun tree =>
              { tree with role := .variableTable { role with
                  bindings := role.bindings.insert name target } }) := by
        refine past.updateTree_network network variableTable fun tree => ?_
        rw [bind_variableRole]
        rfl
      have activated (network : Network) : (past.network network).ensureWith
          (past.key (Network.variableKey variableTable name))
          (fun cell => { cell with active := true }) =
            past.network (network.ensureWith (Network.variableKey variableTable name)
              fun cell => { cell with active := true }) :=
        past.ensureWith_network network _ fun _ => rfl
      simp only [Option.map_some, role_tree, Past.role, bound, variableKey_network, activated,
        past.setKnown_network _ carries]
    | _ => rfl

@[simp] theorem command?_network (handle : Handle) :
    (past.network network).command? (past.handle handle) =
      (network.command? handle).map past.command := by
  unfold Network.command?
  rw [tree?_network]
  cases network.tree? handle with
  | none => rfl
  | some tree =>
    obtain ⟨role, keys⟩ := tree
    cases role <;> rfl

@[simp] theorem setCommand_network (handle : Handle) (command : Compiled) :
    (past.network network).setCommand (past.handle handle) (past.command command) =
      past.network (network.setCommand handle command) :=
  past.updateTree_network network handle fun _ => rfl

include carries in
theorem execute_network (handle : Handle) :
    (past.network network).execute cascade (past.handle handle) =
      past.network (network.execute cascade handle) := by
  unfold Network.execute
  rw [command?_network]
  cases network.command? handle with
  | none => rfl
  | some command =>
    have started : (past.network network).setCommand (past.handle handle)
        { past.command command with executed := true } =
          past.network (network.setCommand handle { command with executed := true }) :=
      past.setCommand_network network handle { command with executed := true }
    simp only [Option.map_some, started]
    by_cases done : command.executed
    · simp [done]
    cases here : command.target with
    | none => simp [done, here]
    | some target =>
      cases named : command.bind with
      | none => simp [done, here, named]
      | some name =>
        simp [done, here, named, past.bindVariable_network _ carries]

@[simp] theorem binding?_network (variableTable : Handle) (name : String) :
    (past.network network).binding? (past.handle variableTable) name =
      (network.binding? variableTable name).map past.key := by
  unfold Network.binding?
  rw [tree?_network]
  cases network.tree? variableTable with
  | none => rfl
  | some tree =>
    obtain ⟨role, keys⟩ := tree
    cases role with
    | variableTable role => exact Std.ExtTreeMap.getElem?_map
    | _ => rfl

theorem addSource?_blocks (binding : Address) (place : Nat) (blocks : List BoundBlock) :
    Network.addSource? (past.key binding) place (blocks.map past.block) =
      (Network.addSource? binding place blocks).map fun added =>
        (past.key added.1, added.2.map past.block) := by
  induction place generalizing blocks with
  | zero =>
    cases blocks with
    | nil => rfl
    | cons first rest =>
      cases first with
      | text content => rfl
      | sources keys recursive suffix =>
        have known : (keys.map past.key).contains (past.key (binding.below suffix)) =
            keys.contains (binding.below suffix) := by
          rw [Bool.eq_iff_iff, List.contains_iff_mem, List.contains_iff_mem]
          simp
        simp only [Network.addSource?, List.map_cons, Past.block, below_key, known]
        split <;> simp [Past.block]
  | succ place ih =>
    cases blocks with
    | nil => rfl
    | cons first rest => simp [Network.addSource?, ih, Function.comp_def]

@[simp] theorem bindCommand_network (handle : Handle) (source : Address) (callback : Callback) :
    (past.network network).bindCommand (past.handle handle) (past.key source) callback =
      past.network (network.bindCommand handle source callback) := by
  unfold Network.bindCommand
  rw [path_key, tree_key]
  cases source.path.head? with
  | none => rfl
  | some name =>
    simp only [binding?_network, command?_network]
    cases network.binding? source.tree name with
    | none => rfl
    | some binding =>
      cases network.command? handle with
      | none => rfl
      | some command =>
        cases callback with
        | bindTarget =>
          have waited := past.waitOn_network (network.setCommand handle
            { command with target := some (binding.below command.targetSuffix) })
            (binding.below command.targetSuffix) (.ofTree handle) none
          rw [← setCommand_network] at waited
          exact congrArg Prod.snd waited
        | bindBlock place =>
          simp only [Option.map_some, blocks_command, addSource?_blocks]
          cases Network.addSource? binding place command.blocks with
          | none => rfl
          | some added =>
            have waited := past.waitOn_network
              (network.setCommand handle { command with blocks := added.2 }) (.ofTree handle)
              added.1 none
            rw [← setCommand_network] at waited
            exact congrArg Prod.snd waited

end ConceptLaws.Past
