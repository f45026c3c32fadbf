import ConceptLaws.Proofs.Catalog.Valid
import ConceptLaws.Relation.Basic

/-! Relations as they change.
Entities are found again with their links, concept and value after others were added. -/

namespace ConceptLaws

theorem values_eq_map {α β : Type} [Ord α] [Std.TransOrd α] (tree : Std.ExtTreeMap α β) :
    tree.values = tree.toList.map Prod.snd := by
  have folded : tree.values = tree.foldr (fun _ value values => value :: values) [] := by
    obtain ⟨⟨quotient⟩⟩ := tree
    induction quotient using Quotient.ind
    rfl
  rw [folded, Std.ExtTreeMap.foldr_eq_foldr_toList]
  induction tree.toList with
  | nil => rfl
  | cons first rest ih => simp [ih]

/-- The values of a sorted tree are what its keys lead to. -/
theorem mem_values {α β : Type} [Ord α] [Std.TransOrd α] [Std.LawfulEqOrd α]
    {tree : Std.ExtTreeMap α β} {value : β} :
    value ∈ tree.values ↔ ∃ key : α, tree[key]? = some value := by
  rw [values_eq_map, List.mem_map]
  constructor
  · intro found
    obtain ⟨⟨key, other⟩, member, rfl⟩ := found
    exact ⟨key, Std.ExtTreeMap.mem_toList_iff_getElem?_eq_some.1 member⟩
  · intro found
    obtain ⟨key, held⟩ := found
    exact ⟨(key, value), Std.ExtTreeMap.mem_toList_iff_getElem?_eq_some.2 held, rfl⟩

/-- The entities have the same identifier, links, concept and value, and accepted entities stay
accepted. -/
structure Entity.Alike (entity later : Entity) : Prop where
  id : later.id = entity.id
  concept : later.concept = entity.concept
  head : later.head = entity.head
  reference : later.reference = entity.reference
  value : later.value = entity.value
  accepted : entity.isTentative = false → later.isTentative = false

theorem Entity.alike_refl (entity : Entity) : entity.Alike entity :=
  ⟨rfl, rfl, rfl, rfl, rfl, fun accepted => accepted⟩

theorem Entity.Alike.trans {first second third : Entity} (earlier : first.Alike second)
    (later : second.Alike third) : first.Alike third where
  id := later.id.trans earlier.id
  concept := later.concept.trans earlier.concept
  head := later.head.trans earlier.head
  reference := later.reference.trans earlier.reference
  value := later.value.trans earlier.value
  accepted := fun accepted => later.accepted (earlier.accepted accepted)

theorem Entity.Alike.parent {entity later : Entity} (alike : entity.Alike later) (side : Side) :
    later.parent side = entity.parent side := by
  cases side with
  | head => exact alike.head
  | reference => exact alike.reference

namespace Relation

theorem contains_iff {relation : Relation} {id : EntityId} :
    relation.contains id = true ↔ ∃ entity, relation.get? id = some entity := by
  unfold contains get?
  rw [← Std.ExtTreeMap.mem_iff_contains, Std.ExtTreeMap.mem_iff_isSome_getElem?,
    Option.isSome_iff_exists]

theorem get?_update (relation : Relation) (id query : EntityId) (change : Entity → Entity) :
    (relation.update id change).get? query =
      if query = id then (relation.get? query).map change else relation.get? query := by
  unfold update get?
  rw [Std.ExtTreeMap.getElem?_modify]
  simp only [Std.compare_eq_iff_eq]
  by_cases same : id = query
  · simp [same]
  · rw [if_neg same, if_neg (Ne.symm same)]

theorem contains_update (relation : Relation) (id query : EntityId) (change : Entity → Entity) :
    (relation.update id change).contains query = relation.contains query := by
  rw [Bool.eq_iff_iff, contains_iff, contains_iff, get?_update]
  split
  · cases relation.get? query with
    | none => simp
    | some entity => simp
  · rfl

theorem get?_put (relation : Relation) (entity : Entity) (query : EntityId) :
    (relation.put entity).get? query =
      if query = entity.id then some entity else relation.get? query := by
  unfold put get?
  rw [Std.ExtTreeMap.getElem?_insert]
  simp only [Std.compare_eq_iff_eq]
  by_cases same : entity.id = query
  · simp [same]
  · rw [if_neg same, if_neg (Ne.symm same)]

/-- The entity, if it is there, is still there, and like it was. -/
def Keeps (relation later : Relation) (id : EntityId) : Prop :=
  ∀ entity, relation.get? id = some entity →
    ∃ after, later.get? id = some after ∧ entity.Alike after

theorem Keeps.trans {first second third : Relation} {id : EntityId}
    (earlier : first.Keeps second id) (later : second.Keeps third id) : first.Keeps third id := by
  intro entity found
  obtain ⟨middle, foundMiddle, alike⟩ := earlier entity found
  obtain ⟨after, foundAfter, alikeAfter⟩ := later middle foundMiddle
  exact ⟨after, foundAfter, alike.trans alikeAfter⟩

theorem keeps_of_get? {relation later : Relation} {id : EntityId}
    (same : later.get? id = relation.get? id) : relation.Keeps later id :=
  fun entity found => ⟨entity, same.trans found, entity.alike_refl⟩

/-- Entities are kept under the identifiers they carry. -/
def Named (relation : Relation) : Prop :=
  ∀ id entity, relation.get? id = some entity → entity.id = id

/-- Every entity is still there, and like it was. -/
structure Extends (relation later : Relation) : Prop where
  keeps : ∀ id, relation.Keeps later id
  named : relation.Named → later.Named

theorem extends_refl (relation : Relation) : relation.Extends relation :=
  ⟨fun _ => keeps_of_get? rfl, fun named => named⟩

theorem Extends.trans {first second third : Relation} (earlier : first.Extends second)
    (later : second.Extends third) : first.Extends third :=
  ⟨fun id => (earlier.keeps id).trans (later.keeps id),
    fun named => later.named (earlier.named named)⟩

theorem Extends.contains {relation later : Relation} (wider : relation.Extends later)
    {id : EntityId} (present : relation.contains id = true) : later.contains id = true := by
  obtain ⟨entity, found⟩ := contains_iff.1 present
  obtain ⟨after, held, -⟩ := wider.keeps id entity found
  exact contains_iff.2 ⟨after, held⟩

theorem extends_of_entities {relation later : Relation}
    (same : later.entities = relation.entities) : relation.Extends later := by
  have found : ∀ id, later.get? id = relation.get? id := by
    intro id
    unfold get?
    rw [same]
  exact ⟨fun id => keeps_of_get? (found id), fun named id entity held =>
    named id entity (found id ▸ held)⟩

/-! ## Changes that extend a relation -/

theorem extends_map {relation later : Relation} {change : Entity → Entity}
    (mapped : ∀ id, later.get? id = (relation.get? id).map change)
    (alike : ∀ entity : Entity, entity.Alike (change entity)) : relation.Extends later := by
  constructor
  · intro id entity found
    exact ⟨change entity, by rw [mapped, found]; rfl, alike entity⟩
  · intro named id after found
    rw [mapped] at found
    obtain ⟨entity, before, rfl⟩ := Option.map_eq_some_iff.1 found
    exact (alike entity).id.trans (named id entity before)

theorem Named.update {relation : Relation} (named : relation.Named) (id : EntityId)
    {change : Entity → Entity} (same : ∀ entity : Entity, (change entity).id = entity.id) :
    (relation.update id change).Named := by
  intro query after found
  rw [get?_update] at found
  split at found
  · obtain ⟨entity, before, rfl⟩ := Option.map_eq_some_iff.1 found
    exact (same entity).trans (named query entity before)
  · exact named query after found

theorem extends_update (relation : Relation) (id : EntityId) {change : Entity → Entity}
    (alike : ∀ entity : Entity, entity.Alike (change entity)) :
    relation.Extends (relation.update id change) := by
  refine ⟨fun query entity found => ?_, fun named => named.update id fun entity => (alike entity).id⟩
  rw [get?_update, found]
  split
  · exact ⟨change entity, rfl, alike entity⟩
  · exact ⟨entity, rfl, entity.alike_refl⟩

theorem get?_recomputeDeep (relation : Relation) (id : EntityId) :
    relation.recomputeDeep.get? id = (relation.get? id).map fun entity =>
      { entity with deep := !entity.isTentative && !relation.supporting.contains entity.id } := by
  unfold recomputeDeep get?
  exact Std.ExtTreeMap.getElem?_map

/-- Which entities are deep makes no difference to what they are like. -/
theorem extends_recomputeDeep (relation : Relation) : relation.Extends relation.recomputeDeep :=
  extends_map relation.get?_recomputeDeep fun _ =>
    ⟨rfl, rfl, rfl, rfl, rfl, fun accepted => accepted⟩

/-- A new entity is put beside the others. -/
theorem insert_eq_ok {relation later : Relation} {entity : Entity} {catalog : Catalog}
    (inserted : relation.insert entity catalog = .ok later) :
    relation.get? entity.id = none ∧ later = relation.put entity := by
  unfold insert at inserted
  split at inserted
  · simp at inserted
  rename_i missing
  split at inserted
  · simp at inserted
  obtain ⟨⟨⟩, -, put⟩ := bind_eq_ok.1 inserted
  refine ⟨?_, (Except.ok.inj put).symm⟩
  rw [Option.eq_none_iff_forall_ne_some]
  intro other found
  exact missing (contains_iff.2 ⟨other, found⟩)

theorem setValue_eq_ok {relation later : Relation} {id : EntityId} {value : Payload}
    (edited : relation.setValue id value = .ok later) :
    later = relation.update id fun entity => { entity with value := value } := by
  unfold setValue at edited
  split at edited
  · exact (Except.ok.inj edited).symm
  · simp at edited

theorem setConcept_eq_ok {relation later : Relation} {id : EntityId} {concept : ConceptId}
    {catalog : Catalog} (edited : relation.setConcept id concept catalog = .ok later) :
    later = relation.update id fun entity => { entity with concept := concept } := by
  unfold setConcept at edited
  split at edited
  · simp at edited
  split at edited
  · exact (Except.ok.inj edited).symm
  · simp at edited

/-- An entity that is there is linked anew when both links pass the check. -/
theorem setParents_eq_ok {relation later : Relation} {id : EntityId}
    {head reference : Option EntityId}
    (edited : relation.setParents id head reference = .ok later) :
    relation.contains id = true ∧
      (∀ parent ∈ head.toList ++ reference.toList, relation.checkRelink id parent = .ok ()) ∧
      later = relation.update id fun entity =>
        { entity with head := head, reference := reference } := by
  unfold setParents at edited
  split at edited
  · simp at edited
  rename_i there
  obtain ⟨⟨⟩, checked, edited⟩ := bind_eq_ok.1 edited
  exact ⟨by simpa using there, forM_eq_ok.1 checked, (Except.ok.inj edited).symm⟩

/-- A removed entity was there; the others lose their links to it. -/
theorem remove_eq_ok {relation later : Relation} {id : EntityId} {removed : Entity}
    (done : relation.remove id = .ok (removed, later)) :
    relation.get? id = some removed ∧ ∀ query, later.get? query =
      if query = id then none else (relation.get? query).map (Entity.unlink · id) := by
  unfold remove at done
  split at done
  · simp at done
  rename_i entity found
  obtain ⟨rfl, rfl⟩ := Prod.mk.inj (Except.ok.inj done)
  refine ⟨found, fun query => ?_⟩
  unfold get?
  rw [Std.ExtTreeMap.getElem?_map, Std.ExtTreeMap.getElem?_erase]
  simp only [Std.compare_eq_iff_eq]
  by_cases same : id = query
  · simp [same]
  · rw [if_neg same, if_neg (Ne.symm same)]

theorem Named.remove {relation later : Relation} (named : relation.Named) {id : EntityId}
    {removed : Entity} (done : relation.remove id = .ok (removed, later)) : later.Named := by
  obtain ⟨-, left⟩ := remove_eq_ok done
  intro query entity found
  rw [left] at found
  split at found
  · simp at found
  · obtain ⟨before, foundBefore, rfl⟩ := Option.map_eq_some_iff.1 found
    exact named query before foundBefore

theorem Named.put {relation : Relation} (named : relation.Named) (entity : Entity) :
    (relation.put entity).Named := by
  intro id other found
  rw [get?_put] at found
  split at found
  · rename_i same
    obtain rfl := Option.some.inj found
    exact same.symm
  · exact named id other found

theorem named_ofRecords {records : List EntityRecord} {catalog : Catalog} {relation : Relation}
    (built : ofRecords records catalog = .ok relation) : relation.Named := by
  have folded : ∀ (records : List EntityRecord) {start collected : Relation}, start.Named →
      records.foldlM (addRecord catalog) start = .ok collected → collected.Named := by
    intro records
    induction records with
    | nil =>
      intro start collected named collects
      obtain rfl := Except.ok.inj collects
      exact named
    | cons first rest ih =>
      intro start collected named collects
      rw [List.foldlM_cons] at collects
      obtain ⟨middle, head, tail⟩ := bind_eq_ok.1 collects
      refine ih ?_ tail
      unfold addRecord at head
      split at head
      · simp at head
      split at head
      · simp at head
      obtain rfl := Except.ok.inj head
      exact named.put _
  unfold ofRecords at built
  obtain ⟨collected, collects, built⟩ := bind_eq_ok.1 built
  obtain ⟨⟨⟩, -, built⟩ := bind_eq_ok.1 built
  obtain ⟨⟨⟩, -, built⟩ := bind_eq_ok.1 built
  obtain rfl := Except.ok.inj built
  refine collected.extends_recomputeDeep.named (folded records (fun id entity found => ?_) collects)
  simp [empty, get?] at found

theorem extends_insert {relation later : Relation} {entity : Entity} {catalog : Catalog}
    (inserted : relation.insert entity catalog = .ok later) : relation.Extends later := by
  obtain ⟨absent, rfl⟩ := insert_eq_ok inserted
  refine ⟨fun id other found => ?_, fun named => named.put entity⟩
  have different : id ≠ entity.id := by
    intro same
    simp [same, absent] at found
  rw [get?_put, if_neg different]
  exact ⟨other, found, other.alike_refl⟩

end Relation

end ConceptLaws
