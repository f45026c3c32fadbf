import ConceptLaws.Proofs.Command.Assembly
import ConceptLaws.Proofs.Propagation.Protection
import ConceptLaws.Proofs.Propagation.Reachable

/-! Resolution and primary data.
Whatever is compiled, activated and settled, the values at and below known keys stay as they are,
provided that no command clears and apart from the symbol that a data tree puts together. A command
that clears takes primary data away, as it is asked for its target only. -/

namespace ConceptLaws.Command

open Propagation Propagation.Network

variable (context : Context) (owner : EntityId) (trees : EntityTrees) (swapped : Bool)

theorem spares_addBlock {draft : Draft} (safe : draft.network.Safe) (block : Block × Nat) :
    draft.network.Spares (draft.addBlock context owner trees swapped block).network := by
  unfold Draft.addBlock
  split
  · exact safe.spares_refl
  split
  · exact safe.spares_refl
  dsimp only
  split
  · exact safe.spares_bindVariable sparing_drain _ _ _
  · exact safe.spares_refl

theorem spares_addBlocks (blocks : List (Block × Nat)) {draft : Draft}
    (safe : draft.network.Safe) :
    draft.network.Spares
      (blocks.foldl (Draft.addBlock context owner trees swapped) draft).network := by
  induction blocks generalizing draft with
  | nil => exact safe.spares_refl
  | cons first rest ih =>
    have head := spares_addBlock context owner trees swapped safe first
    exact head.trans (ih head.safe)

theorem spares_connect {network : Network} (safe : network.Safe) (root : Address) (target : Target)
    (draft : Draft) : network.Spares (connect network trees root target draft) := by
  unfold connect
  dsimp only
  have barred : network.Spares (if draft.unreachable then network.block root else network) := by
    split
    · exact safe.spares_ensureWith root (fun _ known => known) fun _ _ _ => rfl
    · exact safe.spares_refl
  generalize (if draft.unreachable then network.block root else network) = ready at *
  have waiting := barred.trans (barred.safe.spares_foldl draft.waits
    fun wait _ later (safeLater : later.Safe) => safeLater.spares_waitOn root wait.1 wait.2)
  refine waiting.trans ?_
  split
  · exact waiting.safe.spares_waitOn _ root none
  · exact waiting.safe.spares_waitOn root _ _

theorem spares_instantiate {template : Template} (harmless : template.action ≠ .clear)
    {network : Network} (safe : network.Safe) (target : Target) :
    network.Spares (instantiate context owner trees template swapped network target) := by
  unfold instantiate
  split
  · exact safe.spares_refl
  dsimp only
  have start : (⟨network, [], [], false⟩ : Draft).network.Safe := safe
  have drafted := spares_addBlocks context owner trees swapped template.expression.blocks.zipIdx start
  generalize template.expression.blocks.zipIdx.foldl
    (Draft.addBlock context owner trees swapped) ⟨network, [], [], false⟩ = draft at *
  refine drafted.trans ?_
  have created : draft.network.Spares (draft.network.create (.command
      (compiledOf draft.network owner trees template target draft.blocks))).2 := by
    refine drafted.safe.spares_create fun command same => ?_
    obtain rfl := Role.command.inj same
    exact harmless
  split
  · have executed := created.safe.spares_execute sparing_drain (draft.network.create (.command
      (compiledOf draft.network owner trees template target draft.blocks))).1
    exact (created.trans executed).remove (drafted.safe.tree?_fst_create _)
  · exact created.trans (spares_connect trees created.safe _ _ _)

theorem spares_compileTemplate {template : Template} (harmless : template.action ≠ .clear)
    {network : Network} (safe : network.Safe) :
    network.Spares (compileTemplate context network owner template swapped).2 := by
  unfold compileTemplate
  split
  · exact safe.spares_refl
  · exact safe.spares_foldl _ fun target _ later safeLater =>
      spares_instantiate context owner _ swapped harmless safeLater target

/-- Whether a source is read as a command that clears. -/
def isClearing (source : String) : Bool :=
  match Template.parse source with
  | .error _ => false
  | .ok template => template.action == .clear

theorem spares_compileSource {network : Network} (safe : network.Safe) {source : String}
    (keeps : isClearing source = false) :
    network.Spares (compileSource context network owner source).2 := by
  unfold compileSource
  split
  · exact safe.spares_refl
  rename_i template parsed
  have harmless : template.action ≠ .clear := by
    simpa [isClearing, parsed] using keeps
  have compiled := spares_compileTemplate context owner false harmless safe
  dsimp only
  split
  · exact compiled.trans (spares_compileTemplate context owner true harmless compiled.safe)
  · exact compiled

/-! ## Runs -/

/-- What resolution does to a network. -/
inductive Operation where
  | compile (context : Context) (owner : EntityId) (source : String)
  | activate (key : Address)
  | settle

namespace Operation

def perform (network : Network) : Operation → Network
  | compile context owner source => (compileSource context network owner source).2
  | activate key => network.activate key
  | settle => network.settle

/-- The commands that it compiles. -/
def sources : Operation → List String
  | compile _ _ source => [source]
  | activate _ => []
  | settle => []

theorem spares_perform {network : Network} (safe : network.Safe) {operation : Operation}
    (keeps : ∀ source ∈ operation.sources, isClearing source = false) :
    network.Spares (operation.perform network) := by
  cases operation with
  | compile context owner source =>
    exact spares_compileSource context owner safe (keeps source (by simp [sources]))
  | activate key => exact safe.spares_activate key
  | settle => exact safe.spares_settle

end Operation

/-- Without commands there is none that clears. -/
theorem safe_of_vacant {network : Network} (reachable : network.Reachable)
    (vacant : ∀ handle, network.command? handle = none) : network.Safe :=
  ⟨reachable.sound.arena, fun handle command found => by simp [vacant] at found⟩

/-- Commands that do not clear leave the values at and below known keys as they are. The symbol is
put together anew when it completes, known or not. -/
theorem primary_data_kept {network : Network} (reachable : network.Reachable)
    (vacant : ∀ handle, network.command? handle = none) (operations : List Operation)
    (keeps : ∀ operation ∈ operations, ∀ source ∈ operation.sources, isClearing source = false)
    {key : Address} (shielded : network.Shielded key) (ordinary : key.path ≠ symbolPath) :
    (operations.foldl Operation.perform network).value? key = network.value? key := by
  have safe := safe_of_vacant reachable vacant
  have spares := safe.spares_foldl operations fun operation member later safeLater =>
    Operation.spares_perform safeLater (keeps operation member)
  exact spares.value key shielded ordinary

/-- An entity whose concept is known by name. -/
def named : Network :=
  ((empty 64).createEntity ⟨⟨1⟩, ⟨1⟩, none, none, .empty, none, false, .none⟩
    ⟨⟨1⟩, "c", [], ∅, none, false⟩ none).2

def namedContext : Context where
  relation := .empty
  catalog := ⟨.empty, ∅, default⟩
  trees := (∅ : Std.ExtTreeMap EntityId EntityTrees).insert ⟨1⟩ ⟨⟨0, 0⟩, ⟨1, 0⟩⟩

def nameKey : Address := ⟨⟨0, 0⟩, [conceptSegment, "name"]⟩

theorem vacant_named (handle : Handle) : named.command? handle = none :=
  ((unwired_empty 64).createEntity _ _ _).vacant handle

theorem shielded_nameKey : named.Shielded nameKey :=
  ⟨nameKey.path, by decide +kernel, by decide +kernel⟩

/-- The name is assigned to and copied. -/
def copying : List Operation :=
  [.compile namedContext ⟨1⟩ "concept = 5", .compile namedContext ⟨1⟩ "concept.name.x = 5",
    .compile namedContext ⟨1⟩ "visual.x = \x7b\x7bconcept.name\x7d\x7d", .activate ⟨⟨0, 0⟩, []⟩,
    .settle]

theorem primary_data_kept_copied :
    (copying.foldl Operation.perform named).value? nameKey = some (.text "c") := by
  have reachable : named.Reachable := .createEntity (.empty 64) _ _ _
  have kept := primary_data_kept reachable vacant_named copying (by decide +kernel)
    shielded_nameKey (by decide +kernel)
  exact kept.trans rfl

/-! ## Clearing -/

theorem addBlock_of_isText {draft : Draft} {block : Block × Nat} (text : block.1.isText = true) :
    (draft.addBlock context owner trees swapped block).network = draft.network := by
  unfold Draft.addBlock
  split
  · rfl
  · rename_i reference shape
    simp [shape, Block.isText] at text

theorem addBlocks_of_isText (blocks : List (Block × Nat))
    (text : ∀ block ∈ blocks, block.1.isText = true) (draft : Draft) :
    (blocks.foldl (Draft.addBlock context owner trees swapped) draft).network = draft.network := by
  induction blocks generalizing draft with
  | nil => rfl
  | cons first rest ih =>
    have head : (draft.addBlock context owner trees swapped first).network = draft.network :=
      addBlock_of_isText context owner trees swapped (text first List.mem_cons_self)
    exact (ih (fun block member => text block (List.mem_cons_of_mem first member)) _).trans head

theorem value?_execute {network : Network} (sound : network.Sound) (cascade : Cascade)
    {handle : Handle} {command : Compiled} (found : network.command? handle = some command)
    (fresh : command.executed = false) (clears : command.action = .clear)
    (plain : command.bind = none) {top query : Address} (target : command.target = some top)
    (same : query.tree = top.tree) (within : query.path.isWithin top.path = true) :
    (network.execute cascade handle).value? query = none := by
  unfold execute
  rw [found]
  dsimp only
  rw [if_neg (by simp [fresh])]
  have marked := sound.advances_setCommand found { command with executed := true }
  have counted := marked.sound.toFounded.tame_updateCounts fun counts =>
    { counts with commands := counts.commands + 1 }
  split
  · rename_i missing
    simp [target] at missing
  rename_i address present
  obtain rfl := Option.some.inj (target.symm.trans present)
  split
  · rename_i name bound
    simp [plain] at bound
  · unfold carryOut
    dsimp only
    rw [if_pos clears]
    exact value?_clearKey (marked.sound.tame counted).rooted same within

/-- A command that clears is asked for its target only. What is known below goes with the rest. -/
theorem value?_instantiate {template : Template} (clears : template.action = .clear)
    (constant : template.expression.isConstant = true) (plain : template.target.bind = none)
    {network : Network} (sound : network.Sound) {top query : Address}
    (free : (Target.key top).isPrimary network = false) (same : query.tree = top.tree)
    (within : query.path.isWithin top.path = true) :
    (instantiate context owner trees template swapped network (.key top)).value? query = none := by
  unfold instantiate
  rw [if_neg (by simp [free])]
  dsimp only
  rw [if_pos (by simp [constant, Target.key?])]
  have kept : (template.expression.blocks.zipIdx.foldl
      (Draft.addBlock context owner trees swapped) ⟨network, [], [], false⟩).network = network := by
    refine addBlocks_of_isText context owner trees swapped _ (fun block member => ?_) _
    exact List.all_eq_true.1 constant _ (List.fst_mem_of_mem_zipIdx member)
  generalize template.expression.blocks.zipIdx.foldl
    (Draft.addBlock context owner trees swapped) ⟨network, [], [], false⟩ = draft at *
  rw [kept]
  have created := sound.advances_create
    (.command (compiledOf network owner trees template (.key top) draft.blocks))
  have found := command?_create sound
    (compiledOf network owner trees template (.key top) draft.blocks)
    (network.create (.command (compiledOf network owner trees template (.key top)
      draft.blocks))).1
  rw [if_pos rfl] at found
  have executed := value?_execute created.sound drain found rfl clears plain rfl same within
  unfold value? at executed ⊢
  rw [cell?_remove]
  split
  · rfl
  · exact executed

/-- A command that clears what is known of the concept. -/
def clearing : Template :=
  ⟨"concept clear", ⟨.nodes [], [conceptSegment], false, none⟩, .clear, ⟨[]⟩⟩

theorem parse_clearing : (Template.parse clearing.source).toOption = some clearing := by
  decide +kernel

theorem compileSource_clearing : (compileSource namedContext named ⟨1⟩ clearing.source).2 =
    instantiate namedContext ⟨1⟩ ⟨⟨0, 0⟩, ⟨1, 0⟩⟩ clearing false named
      (.key ⟨⟨0, 0⟩, [conceptSegment]⟩) := by
  have parsed := parse_clearing
  unfold compileSource
  cases read : Template.parse clearing.source with
  | error fault => simp [read, Except.toOption] at parsed
  | ok template =>
    rw [read] at parsed
    obtain rfl : template = clearing := Option.some.inj parsed
    rfl

/-- Compiling it takes the name away. -/
theorem not_forall_kept :
    ¬∀ (network : Network) (operations : List Operation) (key : Address), network.Reachable →
      (∀ handle, network.command? handle = none) → network.Shielded key →
        (operations.foldl Operation.perform network).value? key = network.value? key := by
  intro kept
  have reachable : named.Reachable := .createEntity (.empty 64) _ _ _
  have same := kept named [.compile namedContext ⟨1⟩ clearing.source] nameKey reachable
    vacant_named shielded_nameKey
  have there : (named.value? nameKey).isSome = true := by decide +kernel
  have gone : ((compileSource namedContext named ⟨1⟩ clearing.source).2).value? nameKey = none := by
    rw [compileSource_clearing]
    exact value?_instantiate namedContext ⟨1⟩ _ false rfl rfl rfl reachable.sound
      (by decide +kernel) rfl (by decide +kernel)
  rw [← same] at there
  change ((compileSource namedContext named ⟨1⟩ clearing.source).2.value? nameKey).isSome = true
    at there
  simp [gone] at there

end ConceptLaws.Command
