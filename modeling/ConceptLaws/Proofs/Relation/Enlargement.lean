import ConceptLaws.Proofs.Correspondence.Branches
import ConceptLaws.Proofs.Relation.Forest

/-! Enlarged relations.
While a branch is appended, entities are put into a relation one by one, and others are laid claim
to. What was there before keeps everything but its claims. A branch that fails is rolled back:
the entities that it made are removed again, the last one first. As no other entity links to them,
this leaves nothing but used identifiers. -/

namespace ConceptLaws

section Trees

variable {α β : Type} [Ord α] [Std.TransOrd α]

/-- The keys that lead to values of a kind. -/
def keysWhere (kind : β → Bool) (tree : Std.ExtTreeMap α β) : List α :=
  (tree.toList.filter fun entry => kind entry.2).map Prod.fst

theorem nodup_keysWhere (kind : β → Bool) (tree : Std.ExtTreeMap α β) :
    (keysWhere kind tree).Nodup := by
  have all : (tree.toList.map Prod.fst).Nodup := by
    rw [Std.ExtTreeMap.map_fst_toList_eq_keys]
    exact Std.ExtTreeMap.nodup_keys
  exact all.sublist (List.filter_sublist.map Prod.fst)

theorem length_keysWhere (kind : β → Bool) (tree : Std.ExtTreeMap α β) :
    (keysWhere kind tree).length = (tree.values.filter kind).length := by
  unfold keysWhere
  rw [values_eq_map, List.filter_map, List.length_map, List.length_map]
  rfl

variable [Std.LawfulEqOrd α] {tree later : Std.ExtTreeMap α β} {kind : β → Bool} {new : List α}

theorem mem_keysWhere {key : α} :
    key ∈ keysWhere kind tree ↔ ∃ value, tree[key]? = some value ∧ kind value = true := by
  unfold keysWhere
  rw [List.mem_map]
  constructor
  · rintro ⟨⟨other, value⟩, member, rfl⟩
    obtain ⟨held, fits⟩ := List.mem_filter.1 member
    exact ⟨value, Std.ExtTreeMap.mem_toList_iff_getElem?_eq_some.1 held, fits⟩
  · rintro ⟨value, held, fits⟩
    exact ⟨(key, value), List.mem_filter.2
      ⟨Std.ExtTreeMap.mem_toList_iff_getElem?_eq_some.2 held, fits⟩, rfl⟩

/-- The values of a kind are more by the new ones, each counted once. -/
theorem length_filter_values_add (distinct : new.Nodup)
    (apart : ∀ key ∈ new, ∀ value, tree[key]? = some value → ¬kind value = true)
    (listed : ∀ key, (∃ value, later[key]? = some value ∧ kind value = true) ↔
      (∃ value, tree[key]? = some value ∧ kind value = true) ∨ key ∈ new) :
    (later.values.filter kind).length = (tree.values.filter kind).length + new.length := by
  have once : (keysWhere kind tree ++ new).Nodup := List.nodup_append'.2
    ⟨nodup_keysWhere kind tree, distinct, fun key old fresh => by
      obtain ⟨value, held, fits⟩ := mem_keysWhere.1 old
      exact apart key fresh value held fits⟩
  have same : (keysWhere kind later).Perm (keysWhere kind tree ++ new) :=
    (List.perm_ext_iff_of_nodup (nodup_keysWhere kind later) once).2 fun key => by
      rw [List.mem_append, mem_keysWhere, mem_keysWhere]
      exact listed key
  rw [← length_keysWhere, ← length_keysWhere, same.length_eq, List.length_append]

theorem size_add (distinct : new.Nodup) (apart : ∀ key ∈ new, tree[key]? = none)
    (listed : ∀ key, (∃ value, later[key]? = some value) ↔
      (∃ value, tree[key]? = some value) ∨ key ∈ new) : later.size = tree.size + new.length := by
  have counted (tree : Std.ExtTreeMap α β) :
      (tree.values.filter fun _ => true).length = tree.size := by
    rw [List.filter_true, values_eq_map, List.length_map, Std.ExtTreeMap.length_toList]
  rw [← counted, ← counted]
  refine length_filter_values_add distinct (fun key fresh value held => ?_) fun key => ?_
  · simp [apart key fresh] at held
  · simpa using listed key

end Trees

/-- The entity is the same one but for what lays claim to it, and the user's entities are left
alone. An entity that is as tentative as the claims stays so. -/
structure Entity.Spared (tentative : Bool) (entity later : Entity) : Prop where
  id : later.id = entity.id
  concept : later.concept = entity.concept
  head : later.head = entity.head
  reference : later.reference = entity.reference
  value : later.value = entity.value
  name : later.name = entity.name
  appended : later.provenance.appended = entity.provenance.appended
  own : entity.provenance.appended = false → later.provenance = entity.provenance
  flag : entity.isTentative = tentative → later.isTentative = tentative

namespace Entity

variable {tentative : Bool} {entity first second third : Entity}

theorem spared_refl (tentative : Bool) (entity : Entity) : entity.Spared tentative entity :=
  ⟨rfl, rfl, rfl, rfl, rfl, rfl, rfl, fun _ => rfl, fun same => same⟩

theorem Spared.trans (earlier : first.Spared tentative second)
    (later : second.Spared tentative third) : first.Spared tentative third where
  id := later.id.trans earlier.id
  concept := later.concept.trans earlier.concept
  head := later.head.trans earlier.head
  reference := later.reference.trans earlier.reference
  value := later.value.trans earlier.value
  name := later.name.trans earlier.name
  appended := later.appended.trans earlier.appended
  own := fun user => (later.own (earlier.appended.trans user)).trans (earlier.own user)
  flag := fun same => later.flag (earlier.flag same)

theorem Spared.parents (spared : entity.Spared tentative first) :
    first.parents = entity.parents := by
  unfold Entity.parents
  rw [spared.head, spared.reference]

theorem spared_claim (map : Correspondence) (entity : Entity) :
    entity.Spared map.tentative (entity.claim map) := by
  unfold Entity.claim
  split
  · rename_i appended
    refine ⟨rfl, rfl, rfl, rfl, rfl, rfl, rfl, fun user => ?_, fun same => ?_⟩
    · exact absurd (appended.symm.trans user) (by simp)
    · change (entity.isTentative && map.tentative) = map.tentative
      rw [same, Bool.and_self]
  · exact spared_refl map.tentative entity

end Entity

namespace Relation

/-- What is made by a correspondence with that flag, and links to entities that are there. -/
structure Makes (relation : Relation) (tentative : Bool) (id : EntityId) (entity : Entity) :
    Prop where
  found : relation.get? id = some entity
  appended : entity.provenance.appended = true
  flag : entity.isTentative = tentative
  grounded : ∀ parent ∈ entity.parents, relation.contains parent = true

/-- The new entities, each listed once, are beside those from before, which are spared. -/
structure Enlarges (relation later : Relation) (tentative : Bool) (new : List EntityId) :
    Prop where
  spared : ∀ id entity, relation.get? id = some entity →
    ∃ after, later.get? id = some after ∧ entity.Spared tentative after
  contains : ∀ id, later.contains id = true ↔ relation.contains id = true ∨ id ∈ new
  apart : ∀ id ∈ new, ¬relation.contains id = true
  distinct : new.Nodup
  made : ∀ id ∈ new, ∃ entity, later.Makes tentative id entity

variable {relation first second third later : Relation} {tentative : Bool}
  {new others : List EntityId}

theorem enlarges_of_map {change : EntityId → Entity → Entity}
    (mapped : ∀ id, later.get? id = (relation.get? id).map (change id))
    (spared : ∀ (id : EntityId) (entity : Entity), entity.Spared tentative (change id entity)) :
    relation.Enlarges later tentative [] := by
  refine ⟨fun id entity found => ⟨change id entity, ?_, spared id entity⟩, fun id => ?_,
    fun id member => absurd member List.not_mem_nil, List.nodup_nil,
    fun id member => absurd member List.not_mem_nil⟩
  · rw [mapped, found]
    rfl
  · simp [contains_iff, mapped]

/-- The next identifier makes no difference. -/
theorem enlarges_of_get? (same : ∀ id, later.get? id = relation.get? id) (tentative : Bool) :
    relation.Enlarges later tentative [] :=
  enlarges_of_map (fun id => by rw [same, Option.map_id']) fun _ entity =>
    entity.spared_refl tentative

theorem enlarges_update (relation : Relation) (id : EntityId) {change : Entity → Entity}
    (spared : ∀ entity : Entity, entity.Spared tentative (change entity)) :
    relation.Enlarges (relation.update id change) tentative [] := by
  have mapped (query : EntityId) : (relation.update id change).get? query =
      (relation.get? query).map (if query = id then change else fun entity => entity) := by
    rw [get?_update]
    split
    · rfl
    · rw [Option.map_id']
  refine enlarges_of_map mapped fun query entity => ?_
  split
  · exact spared entity
  · exact entity.spared_refl tentative

/-- Which entities are deep makes no difference. -/
theorem enlarges_recomputeDeep (relation : Relation) (tentative : Bool) :
    relation.Enlarges relation.recomputeDeep tentative [] :=
  enlarges_of_map relation.get?_recomputeDeep fun _ _ =>
    ⟨rfl, rfl, rfl, rfl, rfl, rfl, rfl, fun _ => rfl, fun same => same⟩

theorem Enlarges.trans (earlier : first.Enlarges second tentative new)
    (after : second.Enlarges third tentative others) :
    first.Enlarges third tentative (new ++ others) where
  spared := by
    intro id entity found
    obtain ⟨middle, held, spared⟩ := earlier.spared id entity found
    obtain ⟨last, heldLast, sparedToo⟩ := after.spared id middle held
    exact ⟨last, heldLast, spared.trans sparedToo⟩
  contains := by
    intro id
    rw [after.contains, earlier.contains, List.mem_append, or_assoc]
  apart := by
    intro id member
    rcases List.mem_append.1 member with old | fresh
    · exact earlier.apart id old
    · exact fun present => after.apart id fresh ((earlier.contains id).2 (.inl present))
  distinct := List.nodup_append'.2 ⟨earlier.distinct, after.distinct, fun id old fresh =>
    after.apart id fresh ((earlier.contains id).2 (.inr old))⟩
  made := by
    intro id member
    rcases List.mem_append.1 member with old | fresh
    · obtain ⟨entity, makes⟩ := earlier.made id old
      obtain ⟨last, found, spared⟩ := after.spared id entity makes.found
      refine ⟨last, found, spared.appended.trans makes.appended, spared.flag makes.flag,
        fun parent listed => (after.contains parent).2 (.inl ?_)⟩
      exact makes.grounded parent (spared.parents ▸ listed)
    · exact after.made id fresh

theorem Enlarges.size_eq (enlarges : relation.Enlarges later tentative new) :
    later.size = relation.size + new.length := by
  refine size_add enlarges.distinct (fun id fresh => ?_) fun id => ?_
  · exact Option.eq_none_iff_forall_ne_some.2 fun entity found =>
      enlarges.apart id fresh (contains_iff.2 ⟨entity, found⟩)
  · have contains := enlarges.contains id
    rwa [contains_iff, contains_iff] at contains

/-- A new entity of a correspondence is put beside the others. -/
theorem enlarges_insert {entity : Entity} {catalog : Catalog}
    (inserted : relation.insert entity catalog = .ok later)
    (appended : entity.provenance.appended = true) :
    relation.Enlarges later entity.isTentative [entity.id] := by
  have checked := checks_of_insert inserted
  obtain ⟨absent, rfl⟩ := insert_eq_ok inserted
  have missing : ¬relation.contains entity.id = true := by simp [contains_iff, absent]
  refine ⟨fun id other found => ⟨other, ?_, other.spared_refl _⟩, fun id => ?_, fun id member => ?_,
    List.nodup_singleton _, fun id member => ⟨entity, ?_, appended, rfl, fun parent listed => ?_⟩⟩
  · have different : id ≠ entity.id := by
      rintro rfl
      simp [absent] at found
    rw [get?_put, if_neg different, found]
  · rw [contains_put, List.mem_singleton, or_comm]
  · rwa [List.mem_singleton.1 member]
  · rw [List.mem_singleton.1 member, get?_put, if_pos rfl]
  · exact contains_put.2 (.inr (checked parent listed).2)

end Relation

end ConceptLaws
