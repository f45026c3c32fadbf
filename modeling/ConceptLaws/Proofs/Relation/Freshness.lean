import ConceptLaws.Proofs.Relation.Forest
import ConceptLaws.Proofs.Relation.Loading

/-! Identifiers that a relation gives out.
Every identifier that an entity has, or that was given out, lies below the next one, except for the
largest one of all, which nothing lies above. Edits keep this until the largest one is given out
itself: the numbering then starts again from zero. -/

namespace ConceptLaws

namespace Relation

/-- The largest identifier. -/
def lastId : EntityId := ⟨18446744073709551615⟩

/-- Whether a relation will not give out an identifier until it has given out the largest one. -/
def Passed (relation : Relation) (id : EntityId) : Prop :=
  id = lastId ∨ id.toNat < relation.nextId.toNat

theorem toNat_lt_last {id : EntityId} (different : id ≠ lastId) : id.toNat + 1 < UInt64.size := by
  have small : id.toNat < UInt64.size := UInt64.toNat_lt_size id.number
  refine Nat.lt_of_le_of_ne small fun most => different ?_
  have same : id.number.toNat = lastId.number.toNat := Nat.succ.inj most
  cases id
  exact congrArg Identifier.mk (UInt64.toNat_inj.1 same)

theorem toNat_next {id : EntityId} (different : id ≠ lastId) : id.next.toNat = id.toNat + 1 := by
  have small := toNat_lt_last different
  unfold Identifier.next Identifier.toNat at *
  rw [UInt64.toNat_add]
  exact Nat.mod_eq_of_lt small

theorem Passed.mono {relation later : Relation} {id : EntityId} (passed : relation.Passed id)
    (most : relation.nextId.toNat ≤ later.nextId.toNat) : later.Passed id :=
  passed.imp_right fun below => Nat.lt_of_lt_of_le below most

/-! ## One edit -/

/-- Whether all entities have identifiers that will not be given out. -/
def AllPassed (relation : Relation) : Prop :=
  ∀ id, relation.contains id = true → relation.Passed id

theorem AllPassed.of_fewer {relation later : Relation} (passed : relation.AllPassed)
    (next : later.nextId = relation.nextId)
    (fewer : ∀ id, later.contains id = true → relation.contains id = true) : later.AllPassed :=
  fun id present => (passed id (fewer id present)).mono (next ▸ Nat.le_refl _)

theorem nextId_put (relation : Relation) (entity : Entity) :
    relation.nextId.toNat ≤ (relation.put entity).nextId.toNat ∧
      (relation.put entity).Passed entity.id := by
  have next : (relation.put entity).nextId.toNat =
      max relation.nextId.toNat entity.id.next.toNat := toNat_maximum _ _
  refine ⟨next ▸ Nat.le_max_left _ _, ?_⟩
  by_cases last : entity.id = lastId
  · exact .inl last
  · have above := toNat_next last
    exact .inr (by omega)

theorem AllPassed.put {relation : Relation} (passed : relation.AllPassed) (entity : Entity) :
    (relation.put entity).AllPassed := by
  obtain ⟨most, here⟩ := relation.nextId_put entity
  intro id present
  rcases contains_put.1 present with rfl | old
  · exact here
  · exact (passed id old).mono most

/-- What an edit gives out. -/
def Edit.given (relation : Relation) : Edit → List EntityId
  | .freshId => [relation.freshId.1]
  | _ => []

theorem remove_fewer {relation later : Relation} {id : EntityId} {removed : Entity}
    (done : relation.remove id = .ok (removed, later)) :
    later.nextId = relation.nextId ∧
      ∀ query, later.contains query = true → relation.contains query = true := by
  refine ⟨?_, fun query present => ?_⟩
  · unfold remove at done
    split at done
    · simp at done
    · exact congrArg (fun pair => pair.2.nextId) (Except.ok.inj done).symm
  · obtain ⟨entity, found⟩ := contains_iff.1 present
    rw [(remove_eq_ok done).2] at found
    split at found
    · simp at found
    · obtain ⟨before, held, -⟩ := Option.map_eq_some_iff.1 found
      exact contains_iff.2 ⟨before, held⟩

/-- What a successful edit does to the numbering. -/
theorem Edit.result?_cases {relation later : Relation} {edit : Edit}
    (done : edit.result? relation = .ok later) :
    (edit.given relation = [] ∧ ∃ entity, later = relation.put entity) ∨
    (edit.given relation = [relation.nextId] ∧ later = relation.freshId.2) ∨
    edit.given relation = [] ∧ later.nextId = relation.nextId ∧
      ∀ id, later.contains id = true → relation.contains id = true := by
  cases edit with
  | insert entity catalog => exact .inl ⟨rfl, entity, (insert_eq_ok done).2⟩
  | freshId => exact .inr (.inl ⟨rfl, (Except.ok.inj done).symm⟩)
  | remove id =>
    simp only [result?] at done
    cases removed : relation.remove id with
    | error fault => simp [removed, Except.map] at done
    | ok pair =>
      rw [removed] at done
      obtain rfl := Except.ok.inj done
      exact .inr (.inr ⟨rfl, remove_fewer removed⟩)
  | setParents id head reference =>
    obtain ⟨-, -, rfl⟩ := setParents_eq_ok done
    exact .inr (.inr ⟨rfl, rfl, fun query => (relation.contains_update id query _).symm.trans⟩)
  | setValue id value =>
    obtain rfl := setValue_eq_ok done
    exact .inr (.inr ⟨rfl, rfl, fun query => (relation.contains_update id query _).symm.trans⟩)
  | setConcept id concept catalog =>
    obtain rfl := setConcept_eq_ok done
    exact .inr (.inr ⟨rfl, rfl, fun query => (relation.contains_update id query _).symm.trans⟩)

theorem Edit.given_of_fails {relation : Relation} {edit : Edit} {fault : RelationFault}
    (failed : edit.call.run relation = .error fault relation) : edit.given relation = [] := by
  cases edit with
  | freshId => cases failed
  | _ => rfl

/-- Until the largest identifier is given out, the next one only rises, above all that is used. -/
theorem AllPassed.perform {relation : Relation} (passed : relation.AllPassed) {edit : Edit}
    (room : lastId ∉ edit.given relation) :
    (edit.perform relation).AllPassed ∧
      relation.nextId.toNat ≤ (edit.perform relation).nextId.toNat ∧
      ∀ id ∈ edit.given relation, (edit.perform relation).Passed id := by
  rcases edit.perform_cases relation with ⟨-, done⟩ | ⟨⟨fault, failed⟩, same⟩
  · rcases Edit.result?_cases done with ⟨none, entity, put⟩ | ⟨given, raised⟩ | ⟨none, next, fewer⟩
    · rw [none, put]
      exact ⟨passed.put entity, (relation.nextId_put entity).1, fun id member => nomatch member⟩
    · rw [given, List.mem_singleton] at room
      have next : (edit.perform relation).nextId.toNat = relation.nextId.toNat + 1 :=
        raised ▸ toNat_next (Ne.symm room)
      refine ⟨fun id present => ?_, by omega, fun id member => ?_⟩
      · exact (passed id (raised ▸ present :)).mono (by omega)
      · rw [given, List.mem_singleton] at member
        rw [member]
        exact .inr (by omega)
    · rw [none]
      exact ⟨passed.of_fewer next fewer, next ▸ Nat.le_refl _, fun id member => nomatch member⟩
  · rw [Edit.given_of_fails failed, same]
    exact ⟨passed, Nat.le_refl _, fun id member => nomatch member⟩

/-! ## Runs of edits -/

/-- What a run of edits gives out. -/
def given (relation : Relation) : List Edit → List EntityId
  | [] => []
  | edit :: rest => edit.given relation ++ given (edit.perform relation) rest

/-- The identifiers of all entities that there are at some point of a run. -/
def held (relation : Relation) : List Edit → List EntityId
  | [] => relation.ids
  | edit :: rest => relation.ids ++ held (edit.perform relation) rest

theorem AllPassed.performAll {relation : Relation} {edits : List Edit}
    (passed : relation.AllPassed) (room : lastId ∉ relation.given edits) :
    relation.nextId.toNat ≤ (relation.performAll edits).nextId.toNat ∧
      ∀ id ∈ relation.held edits ++ relation.given edits,
        (relation.performAll edits).Passed id := by
  induction edits generalizing relation with
  | nil =>
    refine ⟨Nat.le_refl _, fun id member => passed id ?_⟩
    rw [held, given, List.append_nil] at member
    exact mem_ids.1 member
  | cons edit rest ih =>
    rw [given, List.mem_append, not_or] at room
    obtain ⟨still, most, gave⟩ := passed.perform room.1
    obtain ⟨mostLater, later⟩ := ih still room.2
    refine ⟨Nat.le_trans most mostLater, fun id member => ?_⟩
    simp only [held, given, List.mem_append] at member later
    rcases member with (here | member) | here | member
    · exact (passed id (mem_ids.1 here)).mono (Nat.le_trans most mostLater)
    · exact later id (.inl member)
    · exact (gave id here).mono mostLater
    · exact later id (.inr member)

end Relation

end ConceptLaws
