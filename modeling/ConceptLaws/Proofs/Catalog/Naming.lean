import ConceptLaws.Proofs.Catalog.Consistency

/-! Concepts by name.
A concept is called by its own name and by those of its ancestors, and precedence looks for a name
among these. Filters take the first concept of a name and ask for the instances of that one. The two
agree on a name exactly if all concepts of the name are instances of the first one. -/

namespace ConceptLaws

namespace Catalog

/-- A concept of that name is the given one, or an ancestor of it. -/
def IsCalled (catalog : Catalog) (concept : ConceptId) (name : String) : Prop :=
  ∃ ancestor ∈ catalog.concepts,
    ancestor.name = name ∧ catalog.definition.Ancestor concept ancestor.id

/-- All concepts of a name are instances of the first one. -/
def Unambiguous (catalog : Catalog) (name : String) : Prop :=
  ∀ concept ∈ catalog.concepts, concept.name = name → ∃ first,
    catalog.conceptNamed? name = some first ∧ catalog.definition.Ancestor concept.id first.id

theorem conceptNamed?_eq_some {catalog : Catalog} {name : String} {concept : Concept}
    (found : catalog.conceptNamed? name = some concept) :
    concept ∈ catalog.concepts ∧ concept.name = name := by
  unfold conceptNamed? at found
  exact ⟨List.mem_of_find?_eq_some found, by simpa using List.find?_some found⟩

/-- Inheritance that ends at a concept of the catalog starts at one. -/
theorem known_of_ancestor {catalog : Catalog} {id : ConceptId} {ancestor : Concept}
    (member : ancestor ∈ catalog.concepts) (above : catalog.definition.Ancestor id ancestor.id) :
    ∃ known ∈ catalog.concepts, known.id = id := by
  rcases Relation.ReflTransGen.cases_head above with rfl | ⟨parent, ⟨known, listed, same, -⟩, -⟩
  · exact ⟨ancestor, member, rfl⟩
  · exact ⟨known, listed, same⟩

variable {catalog : Catalog} (valid : catalog.Valid)

include valid

theorem Valid.concept? {concept : Concept} (member : concept ∈ catalog.concepts) :
    catalog.concept? concept.id = some concept := by
  obtain ⟨definition, made⟩ := valid
  obtain ⟨concepts, ⟨table, -, rfl⟩, -⟩ := ofDefinition_eq_ok.1 made
  exact find?_of_nodup (Definition.checkConcepts_iff.1 concepts).1 member

theorem Valid.mem_lineage {id ancestor : ConceptId} :
    ancestor ∈ catalog.lineage id ↔
      (∃ known ∈ catalog.concepts, known.id = id) ∧ catalog.definition.Ancestor id ancestor := by
  obtain ⟨definition, made⟩ := valid
  obtain ⟨concepts, ⟨table, found, rfl⟩, -⟩ := ofDefinition_eq_ok.1 made
  obtain ⟨listed, others⟩ := Definition.lineages_eq_ok found
  rw [lineage, Std.ExtTreeMap.getD_eq_getD_getElem?]
  by_cases known : ∃ known ∈ definition.concepts, known.id = id
  · obtain ⟨concept, member, rfl⟩ := known
    obtain ⟨list, ok, held⟩ := listed concept member
    have whole := (Definition.lineage_eq_ok (Definition.checkConcepts_iff.1 concepts).1 ok).1
    rw [held, Option.getD_some, whole.all]
    exact ⟨fun above => ⟨⟨concept, member, rfl⟩, above⟩, And.right⟩
  · rw [others id fun member => known (List.mem_map.1 member)]
    exact iff_of_false (by simp) fun ⟨there, _⟩ => known there

/-- The names that precedence looks for. -/
theorem Valid.mem_names {id : ConceptId} {name : String} :
    name ∈ (catalog.lineageConcepts id).map Concept.name ↔ catalog.IsCalled id name := by
  rw [List.mem_map]
  unfold lineageConcepts IsCalled
  simp only [List.mem_filterMap]
  constructor
  · rintro ⟨ancestor, ⟨query, listed, found⟩, rfl⟩
    unfold Catalog.concept? Definition.concept? at found
    have same : ancestor.id = query := by simpa using List.find?_some found
    exact ⟨ancestor, List.mem_of_find?_eq_some found, rfl, same ▸ (valid.mem_lineage.1 listed).2⟩
  · rintro ⟨ancestor, member, rfl, above⟩
    exact ⟨ancestor, ⟨ancestor.id, valid.mem_lineage.2 ⟨known_of_ancestor member above, above⟩,
      valid.concept? member⟩, rfl⟩

theorem Valid.isSome_precedence? {id : ConceptId} {name : String} :
    (catalog.precedence? id [[name]]).isSome = true ↔ catalog.IsCalled id name := by
  rw [← valid.mem_names, precedence?]
  simp

theorem Valid.instanceOfNamed_iff {id : ConceptId} {name : String} :
    catalog.instanceOfNamed id name = true ↔ ∃ first, catalog.conceptNamed? name = some first ∧
      catalog.definition.Ancestor id first.id := by
  unfold instanceOfNamed instanceOf
  cases found : catalog.conceptNamed? name with
  | none => simp
  | some first =>
    have member := (conceptNamed?_eq_some found).1
    simp only [Option.map_some, Option.getD_some, List.contains_iff_mem, valid.mem_lineage,
      Option.some.injEq, exists_eq_left']
    exact and_iff_right_of_imp (known_of_ancestor member)

theorem Valid.instanceOfNamed_of_unambiguous {name : String} (clear : catalog.Unambiguous name)
    (id : ConceptId) : catalog.instanceOfNamed id name = true ↔ catalog.IsCalled id name := by
  rw [valid.instanceOfNamed_iff]
  constructor
  · rintro ⟨first, found, above⟩
    obtain ⟨member, named⟩ := conceptNamed?_eq_some found
    exact ⟨first, member, named, above⟩
  · rintro ⟨ancestor, member, named, above⟩
    obtain ⟨first, found, higher⟩ := clear ancestor member named
    exact ⟨first, found, above.trans higher⟩

/-- Filters and precedence test a name alike exactly if it is unambiguous. -/
theorem Valid.unambiguous_iff {name : String} :
    catalog.Unambiguous name ↔ ∀ id, catalog.instanceOfNamed id name =
      (catalog.precedence? id [[name]]).isSome := by
  have tests (id : ConceptId) : catalog.instanceOfNamed id name =
      (catalog.precedence? id [[name]]).isSome ↔
        (catalog.instanceOfNamed id name = true ↔ catalog.IsCalled id name) := by
    rw [Bool.eq_iff_iff, valid.isSome_precedence?]
  simp only [tests]
  refine ⟨valid.instanceOfNamed_of_unambiguous, fun alike concept member named => ?_⟩
  exact valid.instanceOfNamed_iff.1 ((alike concept.id).2 ⟨concept, member, named, .refl⟩)

end Catalog

end ConceptLaws
