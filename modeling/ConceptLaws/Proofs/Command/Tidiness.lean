import ConceptLaws.Command.Compilation
import ConceptLaws.Proofs.Propagation.Frame
import ConceptLaws.Proofs.Propagation.Reachable

/-! Compilation keeps networks tidy.
The tree of a command that reads nothing is removed before another one is made, so trees are removed
in the reverse order in which they were made. -/

namespace ConceptLaws

namespace Propagation.Network

/-- The slots in use come first, and the others are free in their order. -/
def Tidy (network : Network) : Prop := ∃ count, network.trees.Tidy count

/-- A tidy network stays tidy, and the limit of cascades is the same. -/
structure Stacks (network later : Network) : Prop where
  maxSteps : later.maxSteps = network.maxSteps
  tidy : network.Tidy → later.Tidy

theorem stacks_refl (network : Network) : network.Stacks network := ⟨rfl, fun tidy => tidy⟩

theorem Stacks.trans {first second third : Network} (earlier : first.Stacks second)
    (later : second.Stacks third) : first.Stacks third :=
  ⟨later.maxSteps.trans earlier.maxSteps, fun tidy => later.tidy (earlier.tidy tidy)⟩

theorem SameFrame.stacks {network later : Network} (same : network.SameFrame later) :
    network.Stacks later := by
  refine ⟨same.maxSteps, fun tidy => ?_⟩
  obtain ⟨count, tidy⟩ := tidy
  exact ⟨count, same.tidy tidy⟩

theorem stacks_create (network : Network) (role : Role) :
    network.Stacks (network.create role).2 := by
  refine ⟨rfl, fun tidy => ?_⟩
  obtain ⟨count, tidy⟩ := tidy
  exact ⟨count + 1, (tidy.allocate _).2⟩

/-- A tree is made, used and removed. -/
theorem stacks_temporary {network later : Network} {role : Role}
    (same : (network.create role).2.SameFrame later) :
    network.Stacks (later.remove (network.create role).1).2 := by
  refine ⟨same.maxSteps, fun tidy => ?_⟩
  obtain ⟨count, tidy⟩ := tidy
  obtain ⟨index, created⟩ := tidy.allocate (Tree.ofRole role)
  have used := same.tidy created
  change ∃ count, (later.trees.deallocate (network.create role).1).2.Tidy count
  cases live : later.trees.get? (network.create role).1 with
  | none =>
    refine ⟨count + 1, ?_⟩
    unfold Arena.deallocate
    rw [live]
    exact used
  | some tree => exact ⟨count, used.deallocate live index⟩

theorem Seeded.sameFrame {data : Handle} {network later : Network}
    (seeded : Seeded data network later) : network.SameFrame later := by
  induction seeded with
  | none => exact network.sameFrame_refl
  | more _ path value known ih => exact ih.trans (sameFrame_ensureWith _ ⟨data, path⟩ _)

theorem stacks_createEntity (network : Network) (entity : Entity) (concept : Concept)
    (precedence : Option Nat) :
    network.Stacks (network.createEntity entity concept precedence).2 := by
  have created : network.Stacks (network.createTrees entity.id precedence) :=
    (network.stacks_create _).trans (stacks_create _ _)
  exact created.trans (network.seeded_createEntity entity concept precedence).sameFrame.stacks

end Propagation.Network

namespace Command

open Propagation

variable (context : Context) (owner : EntityId) (trees : EntityTrees) (swapped : Bool)

theorem sameFrame_addBlock (draft : Draft) (block : Block × Nat) :
    draft.network.SameFrame (draft.addBlock context owner trees swapped block).network := by
  unfold Draft.addBlock
  split
  · exact draft.network.sameFrame_refl
  split
  · exact draft.network.sameFrame_refl
  dsimp only
  split
  · exact draft.network.sameFrame_bind _ _ _
  · exact draft.network.sameFrame_refl

theorem sameFrame_addBlocks (blocks : List (Block × Nat)) (draft : Draft) :
    draft.network.SameFrame
      (blocks.foldl (Draft.addBlock context owner trees swapped) draft).network := by
  induction blocks generalizing draft with
  | nil => exact draft.network.sameFrame_refl
  | cons first rest ih =>
    exact (sameFrame_addBlock context owner trees swapped draft first).trans (ih _)

theorem sameFrame_connect (network : Network) (root : Address) (target : Target)
    (draft : Draft) : network.SameFrame (connect network trees root target draft) := by
  unfold connect
  dsimp only
  have barred : network.SameFrame (if draft.unreachable then network.block root else network) := by
    split
    · exact network.sameFrame_ensureWith root _
    · exact network.sameFrame_refl
  have waiting := barred.trans (Network.sameFrame_foldl (fun later (wait : Address × Option Callback) =>
    later.sameFrame_waitOn root wait.1 wait.2) draft.waits _)
  split
  · exact waiting.trans (Network.sameFrame_waitOn _ _ root none)
  · exact waiting.trans (Network.sameFrame_waitOn _ root _ _)

theorem stacks_instantiate (template : Template) (network : Network) (target : Target) :
    network.Stacks (instantiate context owner trees template swapped network target) := by
  unfold instantiate
  split
  · exact network.stacks_refl
  dsimp only
  have drafted := (sameFrame_addBlocks context owner trees swapped
    template.expression.blocks.zipIdx ⟨network, [], [], false⟩).stacks
  split
  · exact drafted.trans (Network.stacks_temporary (Network.sameFrame_execute _ Network.framed_drain _))
  · exact drafted.trans ((Network.stacks_create _ _).trans (sameFrame_connect trees _ _ _ _).stacks)

theorem stacks_compileTemplate (template : Template) (network : Network) :
    network.Stacks (compileTemplate context network owner template swapped).2 := by
  unfold compileTemplate
  split
  · exact network.stacks_refl
  rename_i trees _
  dsimp only
  induction context.targetsOf template.target owner swapped generalizing network with
  | nil => exact network.stacks_refl
  | cons first rest ih =>
    exact (stacks_instantiate context owner trees swapped template network first).trans (ih _)

theorem stacks_compileSource (network : Network) (source : String) :
    network.Stacks (compileSource context network owner source).2 := by
  unfold compileSource
  split
  · exact network.stacks_refl
  rename_i template _
  have compiled := stacks_compileTemplate context owner false template network
  dsimp only
  split
  · exact compiled.trans (stacks_compileTemplate context owner true template _)
  · exact compiled

end Command

end ConceptLaws
