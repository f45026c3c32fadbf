import ConceptLaws.Correspondence.Conclusion
import ConceptLaws.Proofs.Relation.Basic

/-! Branches.
Appending a branch adds entities and leaves those that were there as they were. -/

namespace ConceptLaws

namespace BranchProgress

theorem extends_create (progress : BranchProgress) (catalog : Catalog) (map : Correspondence)
    (node : LawNode) (head reference : Option BranchSlot) :
    progress.relation.Extends (progress.create catalog map node head reference).2.relation := by
  have used : progress.relation.Extends progress.relation.freshId.2 :=
    Relation.extends_of_entities rfl
  unfold create
  dsimp only
  split
  · exact used
  · rename_i later inserted
    exact used.trans (Relation.extends_insert inserted)

/-- What the making of an entity keeps, a run keeps, also when one of the steps fails: the other
steps change neither the relation nor what was created. By induction on the steps. -/
theorem keeps_run {catalog : Catalog} {map : Correspondence}
    {motive : Relation → List Pair → Prop}
    (create : ∀ (progress : BranchProgress) (node : LawNode) (head reference : Option BranchSlot),
      motive progress.relation progress.created →
        motive (progress.create catalog map node head reference).2.relation
          (progress.create catalog map node head reference).2.created)
    (steps : List BranchStep) : ∀ {progress : BranchProgress},
      motive progress.relation progress.created →
        motive (progress.run catalog map steps).2.relation
          (progress.run catalog map steps).2.created := by
  induction steps with
  | nil => exact fun holds => holds
  | cons first rest ih =>
    intro progress holds
    have stepped : motive (progress.step catalog map first).2.relation
        (progress.step catalog map first).2.created := by
      unfold BranchProgress.step
      cases first with
      | reuse node entity => exact holds
      | create id head reference =>
        dsimp only
        split
        · exact holds
        · exact create progress _ head reference holds
      | formula id slot =>
        dsimp only
        split
        · exact holds
        · exact holds
    unfold run
    generalize progress.step catalog map first = outcome at *
    obtain ⟨succeeded, middle⟩ := outcome
    cases succeeded with
    | true => exact ih stepped
    | false => exact stepped

theorem extends_run (catalog : Catalog) (map : Correspondence) (steps : List BranchStep)
    (progress : BranchProgress) :
    progress.relation.Extends (progress.run catalog map steps).2.relation :=
  keeps_run (motive := fun relation _ => progress.relation.Extends relation)
    (fun middle node head reference before =>
      before.trans (middle.extends_create catalog map node head reference))
    steps progress.relation.extends_refl

end BranchProgress

/-- An entity that is laid claim to stays accepted if it was. -/
theorem Entity.alike_claim (map : Correspondence) (entity : Entity) :
    entity.Alike (entity.claim map) := by
  unfold Entity.claim
  split
  · refine ⟨rfl, rfl, rfl, rfl, rfl, fun accepted => ?_⟩
    change (entity.isTentative && map.tentative) = false
    rw [accepted, Bool.false_and]
  · exact entity.alike_refl

theorem Relation.extends_foldl_claim (map : Correspondence) (pairs : List Pair)
    (relation : Relation) : relation.Extends
      (pairs.foldl (fun relation pair => relation.update pair.entity (Entity.claim map))
        relation) := by
  induction pairs generalizing relation with
  | nil => exact relation.extends_refl
  | cons first rest ih =>
    exact (relation.extends_update first.entity (Entity.alike_claim map)).trans (ih _)

namespace PassState

/-- Appending a branch extends the relation, and changes nothing of the matcher but that the
correspondence takes the results in. -/
theorem appendBranch_cases (context : PassContext) (state : PassState) (id : MapId)
    (node : LawNodeId) :
    state.relation.Extends (state.appendBranch context id node).2.relation ∧
      ((state.appendBranch context id node).2.matcher = state.matcher ∨
        ∃ map pairs formulas, state.matcher.get? id = some map ∧
          (state.appendBranch context id node).2.matcher =
            state.matcher.update map.id (Correspondence.adopt · pairs formulas)) := by
  unfold appendBranch
  split
  · exact ⟨state.relation.extends_refl, Or.inl rfl⟩
  split
  · exact ⟨state.relation.extends_refl, Or.inl rfl⟩
  unfold commit
  split
  · exact ⟨state.relation.extends_refl, Or.inl rfl⟩
  rename_i root plan _ _ map found
  have wider := BranchProgress.extends_run context.catalog map plan.steps (.start state.relation)
  generalize (BranchProgress.start state.relation).run context.catalog map plan.steps = outcome at *
  obtain ⟨succeeded, progress⟩ := outcome
  cases succeeded with
  | false => exact ⟨Relation.extends_of_entities rfl, Or.inl rfl⟩
  | true =>
    refine ⟨wider.trans (Relation.extends_foldl_claim map _ progress.relation), Or.inr ?_⟩
    exact ⟨map, _, _, found, rfl⟩

end PassState

end ConceptLaws
