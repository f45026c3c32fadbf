import ConceptLaws.Proofs.Command.Assembly
import ConceptLaws.Proofs.Command.Calls
import ConceptLaws.Proofs.Command.Tidiness
import ConceptLaws.Proofs.Propagation.Overwriting

/-! The trees that compiling makes.
Each command is compiled to a tree of its own for every target. What is carried out under the handle
of that tree, then or later, does what the command says. The tree of a command that reads nothing is
gone once it is compiled. -/

namespace ConceptLaws.Command

open Propagation Propagation.Network

/-! ## Assignments as they are written -/

/-- Neither a variable nor recursive. -/
def Reference.isDirect (reference : Reference) : Bool :=
  !reference.recursive &&
    match reference.base with
    | .named _ => false
    | .nodes _ => true

def Block.isDirect : Block → Bool
  | .text _ => true
  | .reference value => value.isDirect

def Template.isAssignment (template : Template) : Bool :=
  template.action == .assign && template.target.isDirect &&
    template.expression.blocks.all Block.isDirect

/-- Whether a command can be read and is a plain assignment, with neither variables nor recursive
references. -/
def isAssignmentSource (source : String) : Bool :=
  match Template.parse source with
  | .error _ => false
  | .ok template => template.isAssignment

/-- Whether a command reads nothing. -/
def isConstantSource (source : String) : Bool :=
  match Template.parse source with
  | .error _ => false
  | .ok template => template.expression.isConstant

variable {network later : Network}

/-! ## Trees of assignments -/

/-- The tree of an assignment, or one that is gone. -/
structure Assigning (network : Network) (handle : Handle) : Prop where
  issued : network.trees.Issued handle
  assigns : network.tree? handle = none ∨
    ∃ command, network.command? handle = some command ∧ command.IsAssignment

theorem Assigning.keep {handle : Handle} (assigning : Assigning network handle)
    (keeps : network.Keeps later) : Assigning later handle := by
  refine ⟨keeps.issued handle assigning.issued, ?_⟩
  rcases assigning.assigns with gone | ⟨command, found, assigns⟩
  · exact Or.inl (keeps.stale handle assigning.issued gone)
  · refine (keeps.commands handle command found).imp_right ?_
    rintro ⟨after, foundAfter, grows⟩
    exact ⟨after, foundAfter, assigns.grows grows⟩

theorem Assigning.of_mem {handle : Handle} (assigning : Assigning network handle)
    {deeds : List Deed} (trace : Trace Quiet network deeds later) (sound : network.trees.Sound)
    {at_ : Network} {command : Compiled} {target : Address}
    (member : .command at_ handle command target ∈ deeds) : command.IsAssignment := by
  obtain ⟨first, reached, found, -, -⟩ := trace.of_mem sound member
  rcases (assigning.keep reached.toKeeps).assigns with gone | ⟨other, present, assigns⟩
  · obtain ⟨tree, live, -⟩ := command?_eq_some_iff.1 found
    simp [gone] at live
  · obtain rfl := Option.some.inj (present.symm.trans found)
    exact assigns

/-- Under the handle of a tree that is gone nothing is carried out. -/
theorem not_mem_of_gone {handle : Handle} (issued : network.trees.Issued handle)
    (gone : network.tree? handle = none) {deeds : List Deed}
    (trace : Trace Quiet network deeds later) (sound : network.trees.Sound) {at_ : Network}
    {command : Compiled} {target : Address} : .command at_ handle command target ∉ deeds := by
  intro member
  obtain ⟨first, reached, found, -, -⟩ := trace.of_mem sound member
  obtain ⟨tree, live, -⟩ := command?_eq_some_iff.1 found
  simp [reached.stale handle issued gone] at live

/-! ## Building -/

/-- A tree is made between two networks. -/
def Made (network later : Network) (handle : Handle) : Prop :=
  ¬network.trees.Issued handle ∧ later.trees.Issued handle

instance (network later : Network) (handle : Handle) : Decidable (Made network later handle) :=
  inferInstanceAs (Decidable (¬network.trees.Issued handle ∧ later.trees.Issued handle))

/-- The trees that are made are those of assignments; what is fleeting is gone in the end. -/
structure Builds (fleeting : Prop) (network : Network) (deeds : List Deed) (later : Network) :
    Prop where
  trace : Trace Quiet network deeds later
  assigns : ∀ handle, Made network later handle → ∀ at_ command target,
    .command at_ handle command target ∈ deeds → command.IsAssignment
  assigning : ∀ handle, Made network later handle → Assigning later handle
  vanishes : fleeting → ∀ handle, Made network later handle → later.tree? handle = none

theorem builds_of_unmade {fleeting : Prop} {deeds : List Deed}
    (trace : Trace Quiet network deeds later) (unmade : ∀ handle, ¬Made network later handle) :
    Builds fleeting network deeds later :=
  ⟨trace, fun handle made => absurd made (unmade handle),
    fun handle made => absurd made (unmade handle),
    fun _ handle made => absurd made (unmade handle)⟩

theorem builds_refl (fleeting : Prop) (network : Network) : Builds fleeting network [] network :=
  builds_of_unmade (.refl network) fun _ made => made.1 made.2

theorem keeps_of_trace {deeds : List Deed} (trace : Trace Quiet network deeds later)
    (sound : network.trees.Sound) : network.Keeps later :=
  trace.keeps (fun _ _ quiet => quiet.toKeeps) sound

theorem Builds.trans {fleeting : Prop} {first second third : Network} {deeds more : List Deed}
    (earlier : Builds fleeting first deeds second) (rest : Builds fleeting second more third)
    (sound : first.trees.Sound) : Builds fleeting first (deeds ++ more) third := by
  have soundThen := (keeps_of_trace earlier.trace sound).sound sound
  have keeps := keeps_of_trace rest.trace soundThen
  refine ⟨earlier.trace.trans rest.trace, fun handle made at_ command target member => ?_,
    fun handle made => ?_, fun fleet handle made => ?_⟩ <;>
    by_cases before : second.trees.Issued handle
  · rcases List.mem_append.1 member with here | there
    · exact earlier.assigns handle ⟨made.1, before⟩ at_ command target here
    · exact (earlier.assigning handle ⟨made.1, before⟩).of_mem rest.trace soundThen there
  · rcases List.mem_append.1 member with here | there
    · exact absurd (earlier.trace.issued_of_mem sound here) before
    · exact rest.assigns handle ⟨before, made.2⟩ at_ command target there
  · exact (earlier.assigning handle ⟨made.1, before⟩).keep keeps
  · exact rest.assigning handle ⟨before, made.2⟩
  · exact keeps.stale handle before (earlier.vanishes fleet handle ⟨made.1, before⟩)
  · exact rest.vanishes fleet handle ⟨before, made.2⟩

theorem builds_foldl {fleeting : Prop} {α : Type} {step : Network → α → Network}
    {deeds : Network → α → List Deed} (items : List α)
    (each : ∀ item ∈ items, ∀ {network : Network}, network.trees.Sound →
      Builds fleeting network (deeds network item) (step network item))
    {network : Network} (sound : network.trees.Sound) :
    Builds fleeting network (foldDeeds step deeds network items) (items.foldl step network) := by
  induction items generalizing network with
  | nil => exact builds_refl fleeting network
  | cons first rest ih =>
    have head := each first List.mem_cons_self sound
    exact head.trans (ih (fun item member => each item (List.mem_cons_of_mem first member))
      ((keeps_of_trace head.trace sound).sound sound)) sound

/-! ## Compilation -/

variable (context : Context) (owner : EntityId) (trees : EntityTrees) (swapped : Bool)

theorem any_isRecursive_addBlocks {blocks : List (Block × Nat)}
    (direct : ∀ block ∈ blocks, block.1.isDirect = true) {draft : Draft}
    (bare : draft.blocks.any BoundBlock.isRecursive = false) :
    (blocks.foldl (Draft.addBlock context owner trees swapped) draft).blocks.any
      BoundBlock.isRecursive = false := by
  induction blocks generalizing draft with
  | nil => exact bare
  | cons first rest ih =>
    refine ih (fun block member => direct block (List.mem_cons_of_mem first member)) ?_
    have plain := direct first List.mem_cons_self
    unfold Draft.addBlock
    cases content : first.1 with
    | text => simp [bare, BoundBlock.isRecursive]
    | reference reference =>
      have flat : reference.recursive = false := by
        simp only [content, Block.isDirect, Reference.isDirect, Bool.and_eq_true,
          Bool.not_eq_true'] at plain
        exact plain.1
      dsimp only
      cases reference.base <;> simp [bare, flat, BoundBlock.isRecursive]

theorem isAssignment_compiledOf {template : Template} (assigns : template.isAssignment = true)
    {start : Network} {target : Target} :
    (compiledOf start owner trees template target
      (drafted context owner trees template swapped network).blocks).IsAssignment := by
  simp only [Template.isAssignment, Bool.and_eq_true, beq_iff_eq, List.all_eq_true] at assigns
  obtain ⟨⟨action, direct⟩, blocks⟩ := assigns
  refine ⟨action, Bool.or_eq_false_iff.2 ⟨?_, ?_⟩⟩
  · simp only [Reference.isDirect, Bool.and_eq_true, Bool.not_eq_true'] at direct
    exact direct.1
  · exact any_isRecursive_addBlocks context owner trees swapped
      (fun block member => blocks block.1 (List.fst_mem_of_mem_zipIdx member)) rfl

theorem command?_planted_eq (sound : network.trees.Sound) (template : Template) (target : Target) :
    let start := drafted context owner trees template swapped network
    let made := planted context owner trees template swapped network target
    made.2.command? made.1 =
      some (compiledOf start.network owner trees template target start.blocks) := by
  intro start made
  have arena := (keeps_of_trace (trace_drafted context owner trees template swapped network)
    sound).sound sound
  have live : made.2.tree? made.1 = some (.ofRole (.command
      (compiledOf start.network owner trees template target start.blocks))) :=
    (arena.get?_allocate _ _).trans (if_pos rfl)
  exact command?_eq_some_iff.2 ⟨_, live, rfl⟩

theorem builds_instantiate {template : Template} (assigns : template.isAssignment = true)
    (sound : network.trees.Sound) (address : Address) :
    Builds (template.expression.isConstant = true) network
      (instantiateDeeds context owner trees template swapped network (.key address))
      (instantiate context owner trees template swapped network (.key address)) := by
  have trace := trace_instantiate context owner trees template swapped sound (.key address)
  rw [instantiate_eq] at trace ⊢
  unfold instantiateDeeds at trace ⊢
  split
  · exact builds_refl _ network
  rename_i derived
  rw [if_neg derived, if_neg derived] at trace
  have drafting := sameFrame_addBlocks context owner trees swapped
    template.expression.blocks.zipIdx ⟨network, [], [], false⟩
  have draft := trace_drafted context owner trees template swapped network
  have found := command?_planted_eq context owner trees swapped sound template (.key address)
  have soundDraft := (keeps_of_trace draft sound).sound sound
  have created : (drafted context owner trees template swapped network).network.Quiet
      (planted context owner trees template swapped network (.key address)).2 :=
    quiet_create soundDraft _
  have soundCreated := created.sound soundDraft
  have only : ∀ {handle : Handle}, (planted context owner trees template swapped network
      (.key address)).2.trees.Issued handle → ¬network.trees.Issued handle →
        handle = (planted context owner trees template swapped network (.key address)).1 :=
    fun issued new => (soundDraft.issued_allocate issued).resolve_right
      fun before => new ((drafting.issued _).1 before)
  have unseen : ∀ {handle : Handle} {at_ : Network} {command : Compiled} {target : Address},
      .command at_ handle command target ∈ draftDeeds context owner trees template swapped network →
        network.trees.Issued handle :=
    fun member => (drafting.issued _).1 (draft.issued_of_mem sound member)
  dsimp only at trace found ⊢
  have assigning : Assigning
      (planted context owner trees template swapped network (.key address)).2
      (planted context owner trees template swapped network (.key address)).1 := by
    obtain ⟨tree, live, -⟩ := command?_eq_some_iff.1 found
    exact ⟨issued_of_tree? live,
      Or.inr ⟨_, found, isAssignment_compiledOf context owner trees swapped assigns⟩⟩
  generalize planted context owner trees template swapped network (.key address) = made at *
  split
  · rename_i constant
    rw [if_pos constant, if_pos constant] at trace
    have executed := trace_execute trace_drain made.2 made.1
    have same := sameFrame_execute made.2 framed_drain made.1
    have handles : ∀ {handle : Handle}, Made network
        ((made.2.execute drain made.1).remove made.1).2 handle → handle = made.1 :=
      fun new => only ((same.issued _).1 (Arena.issued_deallocate new.2)) new.1
    have gone : ((made.2.execute drain made.1).remove made.1).2.tree? made.1 = none := by
      rw [tree?_remove, if_pos rfl]
    refine ⟨trace, fun handle new at_ command target member => ?_, fun handle new => ?_,
      fun _ handle new => ?_⟩
    · rcases List.mem_append.1 member with before | after
      · exact absurd (unseen before) new.1
      · rw [handles new] at after
        exact assigning.of_mem executed soundCreated after
    · exact ⟨new.2, Or.inl (handles new ▸ gone)⟩
    · exact handles new ▸ gone
  · rename_i waits
    rw [if_neg waits, if_neg waits] at trace
    have same := sameFrame_connect trees made.2 (.ofTree made.1) (.key address)
      (drafted context owner trees template swapped network)
    refine ⟨trace, fun handle new at_ command target member => ?_, fun handle new => ?_,
      fun constant => absurd constant (by simpa [Target.key?] using waits)⟩
    · rw [List.append_nil] at member
      exact absurd (unseen member) new.1
    · rw [only ((same.issued _).1 new.2) new.1]
      exact assigning.keep (quiet_connect trees made.2 _ _ _).toKeeps

theorem builds_compileTemplate {template : Template} (assigns : template.isAssignment = true)
    (sound : network.trees.Sound) :
    Builds (template.expression.isConstant = true) network
      (compileTemplateDeeds context owner template swapped network)
      (compileTemplate context network owner template swapped).2 := by
  unfold compileTemplateDeeds compileTemplate
  cases context.trees[owner]? with
  | none => exact builds_refl _ network
  | some trees =>
    refine builds_foldl _ (fun target member later arena => ?_) sound
    have direct : template.target.isDirect = true := by
      simp only [Template.isAssignment, Bool.and_eq_true] at assigns
      exact assigns.1.2
    unfold Context.targetsOf at member
    cases base : template.target.base with
    | named => simp [Reference.isDirect, base] at direct
    | nodes steps =>
      simp only [base, List.mem_map] at member
      obtain ⟨address, -, rfl⟩ := member
      exact builds_instantiate context owner trees swapped assigns arena address

theorem builds_compileSource {source : String} (assigns : isAssignmentSource source = true)
    (sound : network.trees.Sound) :
    Builds (isConstantSource source = true) network
      (compileSourceDeeds context owner network source)
      (compileSource context network owner source).2 := by
  unfold compileSourceDeeds compileSource
  unfold isAssignmentSource at assigns
  unfold isConstantSource
  cases parsed : Template.parse source with
  | error => simp [parsed] at assigns
  | ok template =>
    simp only [parsed] at assigns
    have first := builds_compileTemplate context owner false assigns sound
    refine first.trans ?_ sound
    dsimp only
    split
    · exact builds_compileTemplate context owner true assigns
        ((keeps_of_trace first.trace sound).sound sound)
    · exact builds_refl _ _

/-! ## Without variables -/

/-- Only under the handles of new trees anything is executed. -/
def Own (network : Network) (deeds : List Deed) : Prop :=
  ∀ (at_ : Network) (handle : Handle) (command : Compiled) (target : Address),
    .command at_ handle command target ∈ deeds → ¬network.trees.Issued handle

theorem own_nil (network : Network) : Own network [] :=
  fun _ _ _ _ member => absurd member List.not_mem_nil

theorem Own.append {deeds more : List Deed} (own : Own network deeds)
    (keeps : network.Keeps later) (ownMore : Own later more) : Own network (deeds ++ more) := by
  intro at_ handle command target member
  rcases List.mem_append.1 member with first | rest
  · exact own at_ handle command target first
  · exact fun issued => ownMore at_ handle command target rest (keeps.issued handle issued)

theorem draftDeeds_of_isPlain {template : Template} (plain : template.isPlain = true) :
    draftDeeds context owner trees template swapped network = [] := by
  have blocks : ∀ block ∈ template.expression.blocks.zipIdx, block.1.isPlain = true :=
    fun block member => (Template.isPlain_iff.1 plain).2 _ (List.fst_mem_of_mem_zipIdx member)
  unfold draftDeeds
  generalize template.expression.blocks.zipIdx = all at *
  generalize (⟨network, [], [], false⟩ : Draft) = draft
  induction all generalizing draft with
  | nil => rfl
  | cons first rest ih =>
    have bare : addBlockDeeds context owner trees swapped draft first = [] := by
      have alone := blocks first List.mem_cons_self
      unfold addBlockDeeds
      cases content : first.1 with
      | text => rfl
      | reference reference =>
        rw [content] at alone
        obtain ⟨unbound, steps, stepped⟩ := Reference.isPlain_iff.1 alone
        simp [unbound, stepped]
    unfold foldDeeds
    rw [bare, ih fun block member => blocks block (List.mem_cons_of_mem first member)]
    rfl

theorem instantiateDeeds_of_waits {template : Template} (plain : template.isPlain = true)
    (reads : template.expression.isConstant = false) (target : Target) :
    instantiateDeeds context owner trees template swapped network target = [] := by
  unfold instantiateDeeds
  rw [draftDeeds_of_isPlain context owner trees swapped plain]
  simp [reads]

theorem own_instantiate {template : Template} (plain : template.isPlain = true)
    (sound : network.trees.Sound) (target : Target) :
    Own network (instantiateDeeds context owner trees template swapped network target) := by
  have draft := trace_drafted context owner trees template swapped network
  have issued := (keeps_of_trace draft sound).issued
  have soundDraft := (keeps_of_trace draft sound).sound sound
  unfold instantiateDeeds
  rw [draftDeeds_of_isPlain context owner trees swapped plain, List.nil_append]
  split
  · exact own_nil network
  dsimp only
  split
  · have found := command?_planted_eq context owner trees swapped sound template target
    dsimp only at found
    intro at_ handle command aim member
    unfold executeDeeds at member
    have unbound : template.target.bind = none :=
      (Reference.isPlain_iff.1 (Template.isPlain_iff.1 plain).1).1
    simp only [found, compiledOf, unbound, Bool.false_eq_true, ↓reduceIte] at member
    split at member
    · exact absurd member List.not_mem_nil
    · obtain ⟨-, rfl, -, -⟩ := Deed.command.inj (List.mem_singleton.1 member)
      exact fun before => soundDraft.not_issued_allocate _ (issued _ before)
  · exact own_nil network

theorem compileTemplateDeeds_of_waits {template : Template} (plain : template.isPlain = true)
    (reads : template.expression.isConstant = false) :
    compileTemplateDeeds context owner template swapped network = [] := by
  unfold compileTemplateDeeds
  cases context.trees[owner]? with
  | none => rfl
  | some trees =>
    dsimp only
    generalize context.targetsOf template.target owner swapped = targets
    induction targets generalizing network with
    | nil => rfl
    | cons first rest ih =>
      unfold foldDeeds
      rw [instantiateDeeds_of_waits context owner trees swapped plain reads, ih]
      rfl

theorem own_compileTemplate {template : Template} (plain : template.isPlain = true)
    (sound : network.trees.Sound) :
    Own network (compileTemplateDeeds context owner template swapped network) := by
  unfold compileTemplateDeeds
  cases context.trees[owner]? with
  | none => exact own_nil network
  | some trees =>
    dsimp only
    generalize context.targetsOf template.target owner swapped = targets
    induction targets generalizing network with
    | nil => exact own_nil network
    | cons first rest ih =>
      have keeps := keeps_of_trace
        (trace_instantiate context owner trees template swapped sound first) sound
      exact (own_instantiate context owner trees swapped plain sound first).append keeps
        (ih (keeps.sound sound))

/-- Compiling a command that has something to read executes nothing. -/
theorem compileSourceDeeds_of_waits {source : String} (plain : isPlainSource source = true)
    (reads : isConstantSource source = false) :
    compileSourceDeeds context owner network source = [] := by
  unfold compileSourceDeeds
  unfold isPlainSource at plain
  unfold isConstantSource at reads
  cases parsed : Template.parse source with
  | error => rfl
  | ok template =>
    simp only [parsed] at plain reads
    simp [compileTemplateDeeds_of_waits, plain, reads]

theorem own_compileSource {source : String} (plain : isPlainSource source = true)
    (sound : network.trees.Sound) :
    Own network (compileSourceDeeds context owner network source) := by
  unfold compileSourceDeeds
  unfold isPlainSource at plain
  cases parsed : Template.parse source with
  | error => exact own_nil network
  | ok template =>
    simp only [parsed] at plain
    have keeps := keeps_of_trace (trace_compileTemplate context owner template false sound) sound
    refine (own_compileTemplate context owner false plain sound).append keeps ?_
    split
    · exact own_compileTemplate context owner true plain (keeps.sound sound)
    · exact own_nil _

end ConceptLaws.Command
