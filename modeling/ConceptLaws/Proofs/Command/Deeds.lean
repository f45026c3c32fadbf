import ConceptLaws.Command.Compilation
import ConceptLaws.Proofs.Propagation.Deeds

/-! The deeds of compilation.
Compiling binds variables, and each binding runs a cascade. A command that reads nothing is carried
out at once. -/

namespace ConceptLaws.Command

open Propagation Propagation.Network

variable (context : Context) (owner : EntityId) (trees : EntityTrees) (template : Template)
  (swapped : Bool)

def addBlockDeeds (draft : Draft) (block : Block × Nat) : List Deed :=
  match block.1 with
  | .text _ => []
  | .reference reference =>
    match reference.base with
    | .named _ => []
    | .nodes _ =>
      match reference.bind, context.keysOf reference owner swapped with
      | some name, first :: _ =>
        draft.network.bindDeeds drainDeeds trees.variableTable name first
      | _, _ => []

/-- The draft of a command, with all its blocks. -/
def drafted (network : Network) : Draft :=
  template.expression.blocks.zipIdx.foldl (Draft.addBlock context owner trees swapped)
    ⟨network, [], [], false⟩

def draftDeeds (network : Network) : List Deed :=
  foldDeeds (Draft.addBlock context owner trees swapped)
    (addBlockDeeds context owner trees swapped) ⟨network, [], [], false⟩
    template.expression.blocks.zipIdx

/-- The network with a new command, and the handle of the command. -/
def planted (network : Network) (target : Target) : Handle × Network :=
  let draft := drafted context owner trees template swapped network
  draft.network.create (.command (compiledOf draft.network owner trees template target draft.blocks))

def instantiateDeeds (network : Network) (target : Target) : List Deed :=
  if target.isPrimary network then []
  else draftDeeds context owner trees template swapped network ++
    let (handle, network) := planted context owner trees template swapped network target
    if template.expression.isConstant && target.key?.isSome then
      network.executeDeeds drainDeeds handle
    else []

def compileTemplateDeeds (network : Network) : List Deed :=
  match context.trees[owner]? with
  | none => []
  | some trees =>
    foldDeeds (instantiate context owner trees template swapped)
      (instantiateDeeds context owner trees template swapped) network
      (context.targetsOf template.target owner swapped)

def compileSourceDeeds (network : Network) (source : String) : List Deed :=
  match Template.parse source with
  | .error _ => []
  | .ok template =>
    compileTemplateDeeds context owner template false network ++
      if context.isSymmetric owner then
        compileTemplateDeeds context owner template true
          (compileTemplate context network owner template false).2
      else []

/-! ## Traces -/

theorem trace_addBlock (draft : Draft) (block : Block × Nat) :
    Trace Quiet draft.network (addBlockDeeds context owner trees swapped draft block)
      (draft.addBlock context owner trees swapped block).network := by
  obtain ⟨content, place⟩ := block
  cases content with
  | text => exact .refl _
  | reference reference =>
    simp only [addBlockDeeds, Draft.addBlock]
    cases reference.base with
    | named => exact .refl _
    | nodes =>
      dsimp only
      cases reference.bind with
      | none => exact .refl _
      | some name =>
        cases context.keysOf reference owner swapped with
        | nil => exact .refl _
        | cons first =>
          exact trace_bindVariable trace_drain draft.network trees.variableTable name first

theorem trace_drafted (network : Network) :
    Trace Quiet network (draftDeeds context owner trees template swapped network)
      (drafted context owner trees template swapped network).network :=
  trace_foldl Draft.network template.expression.blocks.zipIdx
    (fun block _ draft => trace_addBlock context owner trees swapped draft block)
    ⟨network, [], [], false⟩

theorem quiet_block (network : Network) (key : Address) : network.Quiet (network.block key) :=
  network.quiet_ensureWith key (fun cell => { cell with blocked := true }) (fun _ => rfl)
    (fun _ _ => id) fun _ => rfl

theorem quiet_connect (network : Network) (root : Address) (target : Target) (draft : Draft) :
    network.Quiet (connect network trees root target draft) := by
  unfold connect
  have barred : network.Quiet (if draft.unreachable then network.block root else network) := by
    split
    · exact quiet_block network root
    · exact network.quiet_refl
  have waiting := barred.trans (quiet_foldl draft.waits
    (fun wait _ (network : Network) => network.quiet_waitOn root wait.1 wait.2) _)
  refine waiting.trans ?_
  cases target with
  | key address => exact quiet_waitOn _ address root none
  | bound variableName => exact quiet_waitOn _ root _ _

theorem instantiate_eq (network : Network) (target : Target) :
    instantiate context owner trees template swapped network target =
      if target.isPrimary network then network
      else
        let made := planted context owner trees template swapped network target
        if template.expression.isConstant && target.key?.isSome then
          ((made.2.execute drain made.1).remove made.1).2
        else connect made.2 trees (.ofTree made.1) target
          (drafted context owner trees template swapped network) := rfl

/-- A new command is there, and it has not been executed. -/
theorem command?_planted {network : Network} (sound : network.trees.Sound) (target : Target) :
    ∃ command, command.executed = false ∧
      (planted context owner trees template swapped network target).2.command?
        (planted context owner trees template swapped network target).1 = some command := by
  have arena := ((trace_drafted context owner trees template swapped network).keeps
    (fun _ _ quiet => quiet.toKeeps) sound).sound sound
  let draft := drafted context owner trees template swapped network
  let command := compiledOf draft.network owner trees template target draft.blocks
  have made : (planted context owner trees template swapped network target).2.tree?
      (planted context owner trees template swapped network target).1 =
        some (.ofRole (.command command)) :=
    (arena.get?_allocate (.ofRole (.command command)) _).trans (if_pos rfl)
  exact ⟨command, rfl, command?_eq_some_iff.2 ⟨_, made, rfl⟩⟩

theorem trace_instantiate {network : Network} (sound : network.trees.Sound) (target : Target) :
    Trace Quiet network (instantiateDeeds context owner trees template swapped network target)
      (instantiate context owner trees template swapped network target) := by
  have keeps {first second : Network} {deeds : List Deed} (trace : Trace Quiet first deeds second) :=
    trace.keeps fun _ _ quiet => quiet.toKeeps
  rw [instantiate_eq]
  unfold instantiateDeeds
  split
  · exact .refl network
  have draft := trace_drafted context owner trees template swapped network
  have soundDraft := (keeps draft sound).sound sound
  obtain ⟨command, -, found⟩ := command?_planted context owner trees template swapped sound target
  have created : (drafted context owner trees template swapped network).network.Quiet
      (planted context owner trees template swapped network target).2 :=
    quiet_create soundDraft _
  have soundCreated := created.sound soundDraft
  refine draft.trans (.edit (fun _ => created) ?_)
  dsimp only
  generalize planted context owner trees template swapped network target = made at *
  split
  · have executed := trace_execute trace_drain made.2 made.1
    -- The tree is that of a command still, or it is gone.
    have bare : (made.2.execute drain made.1).dataRole? made.1 = none := by
      rcases (keeps executed soundCreated).commands _ command found with gone | ⟨after, found, -⟩
      · simp [dataRole?, gone]
      · obtain ⟨tree, live, role⟩ := command?_eq_some_iff.1 found
        simp [dataRole?, live, role]
    have removed := executed.trans (trace_quiet (quiet_remove bare))
    rwa [List.append_nil] at removed
  · exact trace_quiet (quiet_connect trees _ _ target _)

theorem trace_compileTemplate {network : Network} (sound : network.trees.Sound) :
    Trace Quiet network (compileTemplateDeeds context owner template swapped network)
      (compileTemplate context network owner template swapped).2 := by
  unfold compileTemplateDeeds compileTemplate
  cases context.trees[owner]? with
  | none => exact .refl network
  | some trees =>
    dsimp only
    generalize context.targetsOf template.target owner swapped = targets
    induction targets generalizing network with
    | nil => exact .refl network
    | cons first rest ih =>
      have head := trace_instantiate context owner trees template swapped sound first
      exact head.trans (ih ((head.keeps fun _ _ quiet => quiet.toKeeps) sound |>.sound sound))

theorem trace_compileSource {network : Network} (sound : network.trees.Sound) (source : String) :
    Trace Quiet network (compileSourceDeeds context owner network source)
      (compileSource context network owner source).2 := by
  unfold compileSourceDeeds compileSource
  cases Template.parse source with
  | error => exact .refl network
  | ok template =>
    have first := trace_compileTemplate context owner template false sound
    have soundFirst := ((first.keeps fun _ _ quiet => quiet.toKeeps) sound).sound sound
    refine first.trans ?_
    dsimp only
    split
    · exact trace_compileTemplate context owner template true soundFirst
    · exact .refl _

end ConceptLaws.Command
