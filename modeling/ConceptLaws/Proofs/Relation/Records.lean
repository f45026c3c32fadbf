import ConceptLaws.Proofs.Relation.Basic
import ConceptLaws.Relation.Basic

/-! What records say of a relation.
The order of the entities and what a reference reaches depend on the records alone, not on which
entities are deep or where they come from. -/

namespace ConceptLaws

namespace Relation

/-- The table of children is all that is used of the relation. -/
theorem listReady_congr (relation other : Relation) (childrenOf : EntityId → List EntityId)
    (turns : Nat) (openParents : OpenParents) (ready : List EntityId) :
    relation.listReady childrenOf turns openParents ready =
      other.listReady childrenOf turns openParents ready := by
  induction turns generalizing openParents ready with
  | zero => rfl
  | succ turns ih =>
    cases ready with
    | nil => rfl
    | cons first rest => simp only [listReady, ih]

/-- The relations have the same records. -/
def SameRecords (left right : Relation) : Prop :=
  ∀ id, (left.get? id).map Entity.toRecord = (right.get? id).map Entity.toRecord

theorem mem_toRecords {relation : Relation} (named : relation.Named) {id : EntityId}
    {record : EntityRecord} : (relation.get? id).map Entity.toRecord = some record ↔
      record.id = id ∧ record ∈ relation.toRecords := by
  simp only [toRecords, toList, List.mem_map, mem_values, Option.map_eq_some_iff]
  constructor
  · intro found
    obtain ⟨entity, held, rfl⟩ := found
    exact ⟨named id entity held, entity, ⟨id, held⟩, rfl⟩
  · intro listed
    obtain ⟨same, entity, ⟨other, held⟩, rfl⟩ := listed
    have here : other = id := (named other entity held).symm.trans same
    exact ⟨entity, here ▸ held, rfl⟩

theorem sameRecords_of_toRecords {left right : Relation} (leftNamed : left.Named)
    (rightNamed : right.Named) (listed : left.toRecords = right.toRecords) :
    left.SameRecords right := by
  intro id
  ext record
  rw [mem_toRecords leftNamed, mem_toRecords rightNamed, listed]

namespace SameRecords

variable {left right : Relation} (same : left.SameRecords right)

include same

theorem contains (id : EntityId) : left.contains id = right.contains id := by
  have present := congrArg Option.isSome (same id)
  simp only [Option.isSome_map] at present
  unfold Relation.contains
  rw [Std.ExtTreeMap.contains_eq_isSome_getElem?, Std.ExtTreeMap.contains_eq_isSome_getElem?]
  exact present

theorem entities : (left.entities.map fun _ entity => entity.toRecord) =
    right.entities.map fun _ entity => entity.toRecord := by
  apply Std.ExtTreeMap.ext_getElem?
  intro id
  rw [Std.ExtTreeMap.getElem?_map, Std.ExtTreeMap.getElem?_map]
  exact same id

theorem size : left.size = right.size := by
  have sizes := congrArg Std.ExtTreeMap.size same.entities
  rwa [Std.ExtTreeMap.size_map, Std.ExtTreeMap.size_map] at sizes

theorem toRecords : left.toRecords = right.toRecords := by
  have values := congrArg Std.ExtTreeMap.toList same.entities
  rw [Std.ExtTreeMap.toList_map, Std.ExtTreeMap.toList_map] at values
  have listed := congrArg (List.map Prod.snd) values
  simpa only [Relation.toRecords, Relation.toList, values_eq_map, List.map_map,
    Function.comp_def] using listed

/-- What is collected from the entities is the same if it is told from their records. -/
theorem map_toList {α : Type} {ofLeft ofRight : Entity → α} (read : EntityRecord → α)
    (leftRead : ∀ entity, ofLeft entity = read entity.toRecord)
    (rightRead : ∀ entity, ofRight entity = read entity.toRecord) :
    left.toList.map ofLeft = right.toList.map ofRight := by
  have listed := congrArg (List.map read) same.toRecords
  rw [Relation.toRecords, Relation.toRecords, List.map_map, List.map_map] at listed
  rw [funext leftRead, funext rightRead]
  exact listed

theorem parentsOf (entity : Entity) : left.parentsOf entity = right.parentsOf entity := by
  unfold Relation.parentsOf
  rw [funext same.contains]

theorem topological : left.topological = right.topological := by
  have parents : (left.toList.map fun entity => (entity.id, left.parentsOf entity)) =
      right.toList.map fun entity => (entity.id, right.parentsOf entity) :=
    same.map_toList (fun record => (record.id,
        ((record.head.toList ++ record.reference.toList).filter right.contains).eraseDups))
      (fun entity => by rw [same.parentsOf entity]; rfl) (fun _ => rfl)
  unfold Relation.topological
  simp only [parents, same.size, listReady_congr left right]

theorem children (id : EntityId) (side : Side) :
    left.children id side = right.children id side := by
  have links : (left.toList.map fun entity => (entity.id, entity.parent side)) =
      right.toList.map fun entity => (entity.id, entity.parent side) := by
    cases side with
    | head =>
      exact same.map_toList (fun record => (record.id, record.head)) (fun _ => rfl) fun _ => rfl
    | reference =>
      exact same.map_toList (fun record => (record.id, record.reference)) (fun _ => rfl)
        fun _ => rfl
  have listed := congrArg (fun links => (links.filter fun link => link.2 == some id).map Prod.fst)
    links
  simpa only [Relation.children, List.filter_map, List.map_map, Function.comp_def] using listed

/-- An entity is found in both or in neither, with the same record. -/
theorem get?_cases (id : EntityId) : (left.get? id = none ∧ right.get? id = none) ∨
    ∃ entity other, left.get? id = some entity ∧ right.get? id = some other ∧
      entity.toRecord = other.toRecord := by
  have records := same id
  cases found : left.get? id with
  | none =>
    rw [found] at records
    exact .inl ⟨rfl, Option.map_eq_none_iff.1 records.symm⟩
  | some entity =>
    rw [found] at records
    obtain ⟨other, present, alike⟩ := Option.map_eq_some_iff.1 records.symm
    exact .inr ⟨entity, other, rfl, present, alike.symm⟩

end SameRecords

end Relation

/-! ## References -/

namespace Command

variable {left right : Relation} (same : left.SameRecords right)

include same

theorem Selector.reach_congr (selector : Selector) (id : EntityId) :
    selector.reach left id = selector.reach right id := by
  cases selector with
  | current => rfl
  | head =>
    simp only [Selector.reach]
    rcases same.get?_cases id with absent | found
    · rw [absent.1, absent.2]
    · obtain ⟨entity, other, first, second, alike⟩ := found
      rw [first, second]
      exact congrArg Option.toList (congrArg EntityRecord.head alike)
  | reference =>
    simp only [Selector.reach]
    rcases same.get?_cases id with absent | found
    · rw [absent.1, absent.2]
    · obtain ⟨entity, other, first, second, alike⟩ := found
      rw [first, second]
      exact congrArg Option.toList (congrArg EntityRecord.reference alike)
  | children => exact same.children id .head

theorem Step.reach_congr (step : Step) (catalog : Catalog) (swapped : Bool)
    (ids : List EntityId) :
    step.reach left catalog swapped ids = step.reach right catalog swapped ids := by
  have keeps (id : EntityId) : step.keeps left catalog id = step.keeps right catalog id := by
    unfold Step.keeps
    cases step.filter with
    | none => rfl
    | some filter =>
      simp only [ConceptFilter.keeps]
      rcases same.get?_cases id with absent | found
      · rw [absent.1, absent.2]
      · obtain ⟨entity, other, first, second, alike⟩ := found
        rw [first, second]
        exact congrArg (catalog.instanceOfNamed · filter.concept != filter.negated)
          (congrArg EntityRecord.concept alike)
  unfold Step.reach
  simp only [funext keeps, funext (Selector.reach_congr same _)]

theorem Reference.reach_congr (reference : Reference) (catalog : Catalog) (owner : EntityId)
    (swapped : Bool) :
    reference.reach left catalog owner swapped = reference.reach right catalog owner swapped := by
  unfold Reference.reach
  cases reference.base with
  | named variableName => rfl
  | nodes steps => simp only [Step.reach_congr same]

end Command

end ConceptLaws
