import ConceptLaws.Proofs.Correspondence.Acts
import ConceptLaws.Proofs.Relation.Enlargement

/-! Branches that are rolled back.
Whatever its steps, a branch leaves the relation enlarged by the entities that it created. When a
step fails they are removed again, the last one first, and removing an entity takes the links of
others to it away. Where links only lead to entities that are there, no entity from before linked to
one of them, so that nothing remains of the branch but the identifiers that it used up. -/

namespace ConceptLaws

/-- An entity that does not link to the other keeps its links. -/
theorem Entity.unlink_eq {entity : Entity} {id : EntityId} (apart : id ∉ entity.parents) :
    entity.unlink id = entity := by
  have unlinked : entity.head ≠ some id ∧ entity.reference ≠ some id := by
    simpa [Entity.parents] using apart
  unfold Entity.unlink
  rw [if_neg unlinked.1, if_neg unlinked.2]

namespace Relation

variable {relation later base : Relation} {tentative : Bool} {new : List EntityId}

/-- All links lead to entities that are there. -/
def Closed (relation : Relation) : Prop :=
  ∀ id entity, relation.get? id = some entity →
    ∀ parent ∈ entity.parents, relation.contains parent = true

theorem Forest.closed (forest : relation.Forest) : relation.Closed :=
  fun _ entity found _ listed => forest.grounded ⟨entity, found, listed⟩

theorem Enlarges.closed (enlarges : relation.Enlarges later tentative new)
    (closed : relation.Closed) : later.Closed := by
  intro id entity found parent listed
  rcases (enlarges.contains id).1 (contains_iff.2 ⟨entity, found⟩) with old | fresh
  · obtain ⟨before, held⟩ := contains_iff.1 old
    obtain ⟨after, heldAfter, spared⟩ := enlarges.spared id before held
    obtain rfl := Option.some.inj (heldAfter.symm.trans found)
    exact (enlarges.contains parent).2 (.inl (closed id before held parent
      (spared.parents ▸ listed)))
  · obtain ⟨made, makes⟩ := enlarges.made id fresh
    obtain rfl := Option.some.inj (makes.found.symm.trans found)
    exact makes.grounded parent listed

/-- Removes an entity, if it is there. -/
def discard (relation : Relation) (id : EntityId) : Relation :=
  match relation.remove id with
  | .error _ => relation
  | .ok (_, later) => later

theorem nextId_discard (relation : Relation) (id : EntityId) :
    (relation.discard id).nextId = relation.nextId := by
  unfold discard remove
  cases relation.get? id with
  | none => rfl
  | some entity => rfl

theorem discard_of_absent {id : EntityId} (absent : relation.get? id = none) :
    relation.discard id = relation := by
  unfold discard remove
  rw [absent]

theorem get?_discard {id : EntityId} {removed : Entity} (found : relation.get? id = some removed)
    (query : EntityId) : (relation.discard id).get? query =
      if query = id then none else (relation.get? query).map (Entity.unlink · id) := by
  have done : relation.remove id = .ok (removed, relation.discard id) := by
    unfold discard remove
    rw [found]
  exact (remove_eq_ok done).2 query

/-- Entities that were not there before are discarded, one after the other; none of the others links
to them. -/
theorem foldl_discard (closed : base.Closed) (ids : List EntityId) : ∀ {relation : Relation},
    (∀ id ∈ ids, ¬base.contains id = true) →
      (∀ id, id ∉ ids → relation.get? id = base.get? id) →
        ids.foldl discard relation = { base with nextId := relation.nextId } := by
  induction ids with
  | nil => exact fun _ same => ext_get? (fun id => same id List.not_mem_nil) rfl
  | cons first rest ih =>
    intro relation apart same
    have missing := apart first List.mem_cons_self
    have absent : base.get? first = none :=
      Option.eq_none_iff_forall_ne_some.2 fun entity found =>
        missing (contains_iff.2 ⟨entity, found⟩)
    have left : ∀ id, id ∉ rest → (relation.discard first).get? id = base.get? id := by
      intro id unlisted
      by_cases here : id = first
      · subst here
        cases found : relation.get? id with
        | none => rw [discard_of_absent found, found, absent]
        | some entity => rw [get?_discard found, if_pos rfl, absent]
      have before := same id (by simp [here, unlisted])
      cases found : relation.get? first with
      | none => rw [discard_of_absent found, before]
      | some entity =>
        rw [get?_discard found, if_neg here, before]
        cases held : base.get? id with
        | none => rfl
        | some other =>
          have apartFrom : first ∉ other.parents := fun linked =>
            missing (closed id other held first linked)
          exact congrArg some (Entity.unlink_eq apartFrom)
    rw [List.foldl_cons, ih (fun id listed => apart id (List.mem_cons_of_mem first listed)) left,
      nextId_discard]

end Relation

namespace BranchProgress

variable {base : Relation} {progress : BranchProgress} {map : Correspondence} {catalog : Catalog}

/-- The entities created so far, in the order in which they were. -/
def news (progress : BranchProgress) : List EntityId := progress.created.map Pair.entity

/-- The branch has put what it created into the relation, and done nothing else to it. -/
structure Adds (base : Relation) (tentative : Bool) (progress : BranchProgress) : Prop where
  enlarges : base.Enlarges progress.relation tentative progress.news
  same : ∀ id, id ∉ progress.news → progress.relation.get? id = base.get? id

theorem adds_start (base : Relation) (tentative : Bool) : (start base).Adds base tentative :=
  ⟨Relation.enlarges_of_get? (fun _ => rfl) tentative, fun _ _ => rfl⟩

/-- Using up an identifier makes no difference. -/
theorem Adds.used (adds : progress.Adds base map.tentative) :
    { progress with relation := progress.relation.freshId.2 }.Adds base map.tentative := by
  have same (id : EntityId) : progress.relation.freshId.2.get? id = progress.relation.get? id := rfl
  have enlarges := adds.enlarges.trans (Relation.enlarges_of_get? same map.tentative)
  rw [List.append_nil] at enlarges
  exact ⟨enlarges, adds.same⟩

theorem Adds.create (adds : progress.Adds base map.tentative) (catalog : Catalog) (node : LawNode)
    (head reference : Option BranchSlot) :
    (progress.create catalog map node head reference).2.Adds base map.tentative := by
  unfold BranchProgress.create
  dsimp only
  split
  · exact adds.used
  · rename_i later inserted
    have enlarges := adds.used.enlarges.trans (Relation.enlarges_insert inserted rfl)
    obtain ⟨-, rfl⟩ := Relation.insert_eq_ok inserted
    refine ⟨?_, fun id unlisted => ?_⟩
    · unfold news at enlarges ⊢
      rw [List.map_append]
      exact enlarges
    · unfold news at unlisted
      rw [List.map_append, List.mem_append, not_or] at unlisted
      have different : id ≠ progress.relation.freshId.1 := by simpa using unlisted.2
      exact (Relation.get?_put _ _ id).trans ((if_neg different).trans (adds.same id unlisted.1))

theorem Adds.run (adds : progress.Adds base map.tentative) (catalog : Catalog)
    (steps : List BranchStep) : (progress.run catalog map steps).2.Adds base map.tentative := by
  have ran := @keeps_run catalog map
    (fun relation created => (⟨relation, [], created, []⟩ : BranchProgress).Adds base map.tentative)
    (fun middle node head reference before => by
      have here : middle.Adds base map.tentative := ⟨before.enlarges, before.same⟩
      have created := here.create catalog node head reference
      exact ⟨created.enlarges, created.same⟩)
    steps progress ⟨adds.enlarges, adds.same⟩
  exact ⟨ran.enlarges, ran.same⟩

/-- Removes the entities that were created, the last one first. -/
def undo (progress : BranchProgress) : Relation :=
  progress.news.reverse.foldl Relation.discard progress.relation

/-- Nothing remains of a branch that is undone but the identifiers used. -/
theorem Adds.undo_eq {tentative : Bool} (adds : progress.Adds base tentative)
    (closed : base.Closed) : progress.undo = { base with nextId := progress.relation.nextId } :=
  Relation.foldl_discard closed _
    (fun id listed => adds.enlarges.apart id (List.mem_reverse.1 listed))
    fun id unlisted => adds.same id (mt List.mem_reverse.2 unlisted)

end BranchProgress

namespace PassState

variable {context : PassContext} {state : PassState}

/-- Applies the steps of a branch. When one fails, what was created is removed again. -/
def commitUndoing (context : PassContext) (state : PassState) (id : MapId)
    (steps : List BranchStep) (root : BranchSlot) : Option EntityId × PassState :=
  match state.matcher.get? id with
  | none => (none, state)
  | some map =>
    match (BranchProgress.start state.relation).run context.catalog map steps with
    | (false, progress) => (none, { state with relation := progress.undo })
    | (true, progress) => (progress.resolve? root, state.adopt map steps progress)

theorem commitUndoing_eq (closed : state.relation.Closed) (id : MapId) (steps : List BranchStep)
    (root : BranchSlot) : state.commitUndoing context id steps root =
      state.commit context id steps root := by
  unfold commitUndoing commit
  cases state.matcher.get? id with
  | none => rfl
  | some map =>
    dsimp only
    have adds : ((BranchProgress.start state.relation).run context.catalog map steps).2.Adds
        state.relation map.tentative :=
      (BranchProgress.adds_start state.relation map.tentative).run context.catalog steps
    generalize (BranchProgress.start state.relation).run context.catalog map steps = outcome at *
    obtain ⟨succeeded, progress⟩ := outcome
    cases succeeded with
    | true => rfl
    | false =>
      dsimp only
      rw [adds.undo_eq closed]

end PassState

end ConceptLaws
