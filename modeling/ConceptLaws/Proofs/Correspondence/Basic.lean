import ConceptLaws.Correspondence.Merging

/-! Correspondences as they grow.
Recording pairs keeps the two directions of a correspondence in agreement, and a node that is mapped
keeps its entity. -/

namespace ConceptLaws.Correspondence

/-- The two directions agree. -/
def Paired (map : Correspondence) : Prop :=
  ∀ (entity : EntityId) (node : LawNodeId),
    map.nodeOf[entity]? = some node ↔ map.entityOf[node]? = some entity

theorem paired_empty (law : LawId) : (empty law).Paired := by
  intro entity node
  simp [empty]

/-- Something was added, but what the correspondence was built from is still there. -/
structure Grows (map later : Correspondence) : Prop where
  id : later.id = map.id
  law : later.law = map.law
  deepPredicates : later.deepPredicates = map.deepPredicates
  kept : ∀ (node : LawNodeId) (entity : EntityId),
    map.entityOf[node]? = some entity → later.entityOf[node]? = some entity
  paired : map.Paired → later.Paired

theorem grows_refl (map : Correspondence) : map.Grows map :=
  ⟨rfl, rfl, rfl, fun _ _ held => held, fun paired => paired⟩

theorem Grows.trans {first second third : Correspondence} (earlier : first.Grows second)
    (later : second.Grows third) : first.Grows third where
  id := later.id.trans earlier.id
  law := later.law.trans earlier.law
  deepPredicates := later.deepPredicates.trans earlier.deepPredicates
  kept := fun node entity held => later.kept node entity (earlier.kept node entity held)
  paired := fun paired => later.paired (earlier.paired paired)

/-- Something was added, but it is as satisfied and as tentative as it was. -/
structure Stays (map later : Correspondence) : Prop extends map.Grows later where
  satisfied : later.satisfied = map.satisfied
  tentative : later.tentative = map.tentative

theorem stays_refl (map : Correspondence) : map.Stays map :=
  ⟨map.grows_refl, rfl, rfl⟩

theorem Stays.trans {first second third : Correspondence} (earlier : first.Stays second)
    (later : second.Stays third) : first.Stays third :=
  ⟨earlier.toGrows.trans later.toGrows, later.satisfied.trans earlier.satisfied,
    later.tentative.trans earlier.tentative⟩

/-- A pair is recorded only where neither side is taken. -/
theorem record_cases (map : Correspondence) (pair : Pair) :
    map.record pair = map ∨
      (map.nodeOf[pair.entity]? = none ∧ map.entityOf[pair.node]? = none ∧
        map.record pair = { map with
          nodeOf := map.nodeOf.insert pair.entity pair.node
          entityOf := map.entityOf.insert pair.node pair.entity }) := by
  unfold record
  split
  · rename_i freeEntity freeNode
    exact Or.inr ⟨freeEntity, freeNode, rfl⟩
  · exact Or.inl rfl

theorem stays_record (map : Correspondence) (pair : Pair) : map.Stays (map.record pair) := by
  rcases map.record_cases pair with same | ⟨freeEntity, freeNode, added⟩
  · rw [same]
    exact map.stays_refl
  rw [added]
  refine ⟨⟨rfl, rfl, rfl, fun node entity held => ?_, fun paired entity node => ?_⟩, rfl, rfl⟩
  · have different : pair.node ≠ node := by
      intro same
      simp [← same, freeNode] at held
    simpa [Std.ExtTreeMap.getElem?_insert, different] using held
  · simp only [Std.ExtTreeMap.getElem?_insert, Std.compare_eq_iff_eq]
    by_cases sameEntity : pair.entity = entity
    · subst sameEntity
      by_cases sameNode : pair.node = node
      · simp [sameNode]
      · have absent := paired pair.entity node
        simp [sameNode, ← absent, freeEntity]
    · by_cases sameNode : pair.node = node
      · subst sameNode
        have absent := paired entity pair.node
        simp [sameEntity, absent, freeNode]
      · simpa [sameEntity, sameNode] using paired entity node

theorem stays_foldl_record (pairs : List Pair) (map : Correspondence) :
    map.Stays (pairs.foldl record map) := by
  induction pairs generalizing map with
  | nil => exact map.stays_refl
  | cons first rest ih => exact (map.stays_record first).trans (ih _)

theorem stays_adopt (map : Correspondence) (pairs : List Pair)
    (formulas : List (LawNodeId × Formula)) : map.Stays (map.adopt pairs formulas) := by
  have recorded := stays_foldl_record pairs map
  exact recorded.trans
    ⟨⟨rfl, rfl, rfl, fun _ _ held => held, fun paired => paired⟩, rfl, rfl⟩

theorem entityOf_record {map : Correspondence} {pair : Pair}
    (freeEntity : map.nodeOf[pair.entity]? = none) (freeNode : map.entityOf[pair.node]? = none) :
    (map.record pair).entityOf[pair.node]? = some pair.entity := by
  unfold record
  rw [freeEntity, freeNode]
  exact Std.ExtTreeMap.getElem?_insert_self

theorem mapped_record {map : Correspondence} {pair : Pair} {node : LawNodeId} {entity : EntityId}
    (held : (map.record pair).entityOf[node]? = some entity) :
    map.entityOf[node]? = some entity ∨ pair = ⟨entity, node⟩ := by
  rcases map.record_cases pair with same | ⟨-, -, added⟩
  · exact Or.inl (same ▸ held)
  · rw [added] at held
    simp only [Std.ExtTreeMap.getElem?_insert, Std.compare_eq_iff_eq] at held
    split at held
    · rename_i same
      obtain rfl := Option.some.inj held
      exact Or.inr (same ▸ rfl)
    · exact Or.inl held

theorem mapped_foldl_record {pairs : List Pair} {map : Correspondence} {node : LawNodeId}
    {entity : EntityId} (held : (pairs.foldl record map).entityOf[node]? = some entity) :
    map.entityOf[node]? = some entity ∨ ⟨entity, node⟩ ∈ pairs := by
  induction pairs generalizing map with
  | nil => exact Or.inl held
  | cons first rest ih =>
    rcases ih held with before | later
    · refine (mapped_record before).imp_right fun same => ?_
      rw [same]
      exact List.mem_cons_self
    · exact Or.inr (List.mem_cons_of_mem first later)

theorem mem_pairs {map : Correspondence} {pair : Pair} :
    pair ∈ map.pairs ↔ map.nodeOf[pair.entity]? = some pair.node := by
  unfold pairs
  rw [List.mem_map]
  constructor
  · intro listed
    obtain ⟨⟨entity, node⟩, member, rfl⟩ := listed
    exact Std.ExtTreeMap.mem_toList_iff_getElem?_eq_some.1 member
  · intro held
    exact ⟨(pair.entity, pair.node), Std.ExtTreeMap.mem_toList_iff_getElem?_eq_some.2 held, rfl⟩

theorem stays_recordAll {map later : Correspondence} {pairs : List Pair}
    (recorded : map.recordAll? pairs = some later) : map.Stays later := by
  induction pairs generalizing map with
  | nil =>
    obtain rfl := Option.some.inj recorded
    exact map.stays_refl
  | cons first rest ih =>
    unfold recordAll? at recorded
    split at recorded
    · simp at recorded
    · exact (map.stays_record first).trans (ih recorded)

/-- The correspondence was built from the deep predicate at the entity. -/
def BuiltAt (map : Correspondence) (pair : Pair) : Prop :=
  pair.node ∈ map.deepPredicates ∧ map.entityOf[pair.node]? = some pair.entity

/-- What every correspondence of a matcher is like. One that was built from a single deep predicate
maps it. -/
structure Sound (map : Correspondence) : Prop where
  paired : map.Paired
  built : ∃ node, node ∈ map.deepPredicates
  anchored : map.deepPredicates.size = 1 → ∀ node ∈ map.deepPredicates,
    ∃ entity, map.entityOf[node]? = some entity

theorem Sound.grow {map later : Correspondence} (sound : map.Sound) (grows : map.Grows later) :
    later.Sound := by
  refine ⟨grows.paired sound.paired, ?_, ?_⟩
  · rw [grows.deepPredicates]
    exact sound.built
  · rw [grows.deepPredicates]
    intro single node member
    obtain ⟨entity, held⟩ := sound.anchored single node member
    exact ⟨entity, grows.kept node entity held⟩

end ConceptLaws.Correspondence
