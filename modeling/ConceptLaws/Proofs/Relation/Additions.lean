import ConceptLaws.Correspondence.Conclusion
import ConceptLaws.Proofs.Relation.Forest

/-! Relations that are added to.
New entities come after the old ones, as identifiers only go up. So the first child that can stand
for a node is still the first after others were added. -/

namespace ConceptLaws

theorem Identifier.compare_eq_lt {kind : IdKind} {left right : Identifier kind} :
    compare left right = .lt ↔ left.toNat < right.toNat := by
  change compare left.number right.number = .lt ↔ _
  rw [Std.compare_eq_lt]
  exact UInt64.lt_iff_toNat_lt

namespace Relation

/-- The identifiers in use are below the next one. -/
def Below (relation : Relation) : Prop :=
  ∀ id, relation.contains id = true → id.toNat < relation.nextId.toNat

theorem below_iff {relation : Relation} : relation.Below ↔
    ∀ id ∈ relation.ids, id.toNat < relation.nextId.toNat := by
  refine forall_congr' fun id => ?_
  unfold ids
  rw [Std.ExtTreeMap.mem_keys, ← Std.ExtTreeMap.contains_iff_mem]
  rfl

instance (relation : Relation) : Decidable relation.Below := decidable_of_iff _ below_iff.symm

/-- A forest of accepted entities whose identifiers are below the next one. -/
structure Firm (relation : Relation) : Prop where
  forest : relation.Forest
  accepted : ∀ id entity, relation.get? id = some entity → entity.isTentative = false
  below : ∀ id, relation.contains id = true → id.toNat < relation.nextId.toNat

/-- Entities may be new; they have identifiers that come after the old ones. -/
structure Gains (relation later : Relation) : Prop where
  wider : relation.Extends later
  next : relation.nextId.toNat ≤ later.nextId.toNat
  fresh : ∀ id, later.contains id = true →
    relation.contains id = true ∨ relation.nextId.toNat ≤ id.toNat

theorem gains_refl (relation : Relation) : relation.Gains relation :=
  ⟨relation.extends_refl, Nat.le_refl _, fun _ present => Or.inl present⟩

theorem Gains.trans {first second third : Relation} (earlier : first.Gains second)
    (later : second.Gains third) : first.Gains third where
  wider := earlier.wider.trans later.wider
  next := Nat.le_trans earlier.next later.next
  fresh := by
    intro id present
    rcases later.fresh id present with old | new
    · exact earlier.fresh id old
    · exact Or.inr (Nat.le_trans earlier.next new)

theorem Gains.contains {relation later : Relation} (gains : relation.Gains later) {id : EntityId}
    (present : relation.contains id = true) : later.contains id = true :=
  gains.wider.contains present

/-- What has an old identifier was there before. -/
theorem Gains.old {relation later : Relation} (gains : relation.Gains later) {id : EntityId}
    {after : Entity} (found : later.get? id = some after)
    (before : id.toNat < relation.nextId.toNat) :
    ∃ entity, relation.get? id = some entity ∧ entity.Alike after := by
  have present := (gains.fresh id (contains_iff.2 ⟨after, found⟩)).resolve_right
    (Nat.not_le.2 before)
  obtain ⟨entity, held⟩ := contains_iff.1 present
  obtain ⟨other, foundOther, alike⟩ := gains.wider.keeps id entity held
  obtain rfl := Option.some.inj (found.symm.trans foundOther)
  exact ⟨entity, held, alike⟩

/-- No entity is new and none is gone, and each is like it was. -/
structure SameEntities (relation later : Relation) : Prop where
  wider : relation.Extends later
  next : later.nextId = relation.nextId
  fewer : ∀ id, later.contains id = true → relation.contains id = true

theorem sameEntities_refl (relation : Relation) : relation.SameEntities relation :=
  ⟨relation.extends_refl, rfl, fun _ present => present⟩

theorem SameEntities.trans {first second third : Relation} (earlier : first.SameEntities second)
    (later : second.SameEntities third) : first.SameEntities third where
  wider := earlier.wider.trans later.wider
  next := later.next.trans earlier.next
  fewer := fun id present => earlier.fewer id (later.fewer id present)

theorem sameEntities_recomputeDeep (relation : Relation) :
    relation.SameEntities relation.recomputeDeep :=
  ⟨relation.extends_recomputeDeep, rfl, fun id present =>
    (relation.contains_recomputeDeep id).symm.trans present⟩

theorem sameEntities_update (relation : Relation) (id : EntityId) {change : Entity → Entity}
    (alike : ∀ entity : Entity, entity.Alike (change entity)) :
    relation.SameEntities (relation.update id change) :=
  ⟨relation.extends_update id alike, rfl, fun query present =>
    (relation.contains_update id query change).symm.trans present⟩

theorem SameEntities.gains {relation later : Relation} (same : relation.SameEntities later) :
    relation.Gains later :=
  ⟨same.wider, Nat.le_of_eq (congrArg Identifier.toNat same.next.symm), fun id present =>
    Or.inl (same.fewer id present)⟩

theorem SameEntities.alike {relation later : Relation} (same : relation.SameEntities later)
    {id : EntityId} {after : Entity} (found : later.get? id = some after) :
    ∃ entity, relation.get? id = some entity ∧ entity.Alike after := by
  obtain ⟨entity, held⟩ := contains_iff.1 (same.fewer id (contains_iff.2 ⟨after, found⟩))
  obtain ⟨other, foundOther, alike⟩ := same.wider.keeps id entity held
  obtain rfl := Option.some.inj (found.symm.trans foundOther)
  exact ⟨entity, held, alike⟩

theorem SameEntities.firm {relation later : Relation} (same : relation.SameEntities later)
    (firm : relation.Firm) : later.Firm where
  forest := by
    refine firm.forest.of_fewer (same.wider.named firm.forest.named) ?_ fun _ present =>
      same.gains.contains present
    rintro child parent ⟨after, found, linked⟩
    obtain ⟨entity, held, alike⟩ := same.alike found
    refine ⟨entity, held, ?_⟩
    unfold Entity.parents at linked ⊢
    rw [← alike.head, ← alike.reference]
    exact linked
  accepted := by
    intro id after found
    obtain ⟨entity, held, alike⟩ := same.alike found
    exact alike.accepted (firm.accepted id entity held)
  below := by
    intro id present
    rw [same.next]
    exact firm.below id (same.fewer id present)

theorem insert_eq_put {relation : Relation} {entity : Entity} {catalog : Catalog}
    (absent : relation.contains entity.id = false)
    (known : (catalog.concept? entity.concept).isNone = false)
    (grounded : ∀ parent ∈ entity.parents, relation.contains parent = true) :
    relation.insert entity catalog = .ok (relation.put entity) := by
  have links : entity.parents.forM (relation.checkNewLink entity) = .ok () := by
    refine forM_eq_ok.2 fun parent linked => checkNewLink_eq_ok.2 ⟨?_, grounded parent linked⟩
    rintro rfl
    have present := grounded entity.id linked
    simp [absent] at present
  unfold insert
  rw [absent, known, links]
  rfl

/-- An entity with a fresh identifier and existing parents can be inserted. -/
theorem Firm.insert_fresh {relation : Relation} (firm : relation.Firm) {entity : Entity}
    {catalog : Catalog} (fresh : entity.id = relation.nextId) (accepted : entity.isTentative = false)
    (known : (catalog.concept? entity.concept).isNone = false)
    (grounded : ∀ parent ∈ entity.parents, relation.contains parent = true)
    (room : relation.nextId.toNat + 1 < UInt64.size) :
    ∃ later, relation.freshId.2.insert entity catalog = .ok later ∧ later.Firm ∧
      relation.Gains later ∧ later.nextId.toNat = relation.nextId.toNat + 1 ∧
      ∀ id, later.get? id = if id = entity.id then some entity else relation.get? id := by
  have absent : relation.contains entity.id = false := by
    refine Bool.eq_false_iff.2 fun present => ?_
    have below := firm.below entity.id present
    rw [fresh] at below
    omega
  have used : relation.Extends relation.freshId.2 := extends_of_entities rfl
  have inserted : relation.freshId.2.insert entity catalog = .ok (relation.freshId.2.put entity) :=
    insert_eq_put absent known grounded
  have next : (relation.freshId.2.put entity).nextId.toNat = relation.nextId.toNat + 1 := by
    have same : (relation.freshId.2.put entity).nextId = relation.nextId.next := by
      change relation.nextId.next.maximum entity.id.next = relation.nextId.next
      rw [fresh]
      unfold Identifier.maximum
      split
      · rfl
      · rfl
    rw [same]
    unfold Identifier.next Identifier.toNat at *
    rw [UInt64.toNat_add]
    exact Nat.mod_eq_of_lt room
  have found (id : EntityId) : (relation.freshId.2.put entity).get? id =
      if id = entity.id then some entity else relation.get? id := get?_put _ _ _
  have forest : relation.freshId.2.Forest :=
    firm.forest.of_fewer (used.named firm.forest.named) (fun link => link) fun _ there => there
  refine ⟨_, inserted, ⟨forest.insert inserted, fun id other held => ?_, fun id present => ?_⟩,
    ⟨used.trans (extends_insert inserted), by omega, fun id present => ?_⟩, next, found⟩
  · rw [found] at held
    split at held
    · obtain rfl := Option.some.inj held
      exact accepted
    · exact firm.accepted id other held
  · rcases contains_put.1 present with rfl | old
    · rw [next, fresh]
      exact Nat.lt_succ_self _
    · have below := firm.below id old
      omega
  · rcases contains_put.1 present with rfl | old
    · exact Or.inr (Nat.le_of_eq (congrArg Identifier.toNat fresh.symm))
    · exact Or.inl old

/-! ## Relations made from records -/

/-- Entities that were put have identifiers below the next one, unless those wrap around. -/
theorem below_put {relation : Relation} {entity : Entity}
    (below : ∀ id, relation.contains id = true → id.toNat < relation.nextId.toNat)
    (small : entity.id.toNat + 1 < UInt64.size) {id : EntityId}
    (present : (relation.put entity).contains id = true) :
    id.toNat < (relation.put entity).nextId.toNat := by
  have most : relation.nextId.toNat ≤ (relation.put entity).nextId.toNat ∧
      entity.id.next.toNat ≤ (relation.put entity).nextId.toNat := by
    change relation.nextId.toNat ≤ (relation.nextId.maximum entity.id.next).toNat ∧
      entity.id.next.toNat ≤ (relation.nextId.maximum entity.id.next).toNat
    unfold Identifier.maximum Identifier.toNat
    split
    · rename_i less
      exact ⟨Nat.le_of_lt (UInt64.lt_iff_toNat_lt.1 less), Nat.le_refl _⟩
    · rename_i more
      exact ⟨Nat.le_refl _, Nat.not_lt.1 fun less => more (UInt64.lt_iff_toNat_lt.2 less)⟩
  have after : entity.id.next.toNat = entity.id.toNat + 1 := by
    unfold Identifier.next Identifier.toNat at *
    rw [UInt64.toNat_add]
    exact Nat.mod_eq_of_lt small
  rcases contains_put.1 present with rfl | old
  · omega
  · have before := below id old
    omega

/-- Entities of records are accepted. -/
theorem foldlM_addRecord {records : List EntityRecord} {catalog : Catalog} {collected : Relation}
    (small : ∀ record ∈ records, record.id.toNat + 1 < UInt64.size) : ∀ {start : Relation},
    (∀ id entity, start.get? id = some entity → entity.isTentative = false) →
      (∀ id, start.contains id = true → id.toNat < start.nextId.toNat) →
      records.foldlM (addRecord catalog) start = .ok collected →
      (∀ id entity, collected.get? id = some entity → entity.isTentative = false) ∧
        ∀ id, collected.contains id = true → id.toNat < collected.nextId.toNat := by
  induction records with
  | nil =>
    intro start accepted below collects
    obtain rfl := Except.ok.inj collects
    exact ⟨accepted, below⟩
  | cons first rest ih =>
    intro start accepted below collects
    rw [List.foldlM_cons] at collects
    obtain ⟨middle, head, tail⟩ := bind_eq_ok.1 collects
    unfold addRecord at head
    split at head
    · simp at head
    split at head
    · simp at head
    obtain rfl := Except.ok.inj head
    refine ih (fun record member => small record (List.mem_cons_of_mem first member))
      (fun id entity found => ?_) (fun id present => ?_) tail
    · rw [get?_put] at found
      split at found
      · obtain rfl := Option.some.inj found
        rfl
      · exact accepted id entity found
    · exact below_put below (small first List.mem_cons_self) present

/-- A relation made from records is firm, if the records leave identifiers. -/
theorem firm_ofRecords {records : List EntityRecord} {catalog : Catalog} {relation : Relation}
    (built : ofRecords records catalog = .ok relation)
    (small : ∀ record ∈ records, record.id.toNat + 1 < UInt64.size) : relation.Firm := by
  have forest := forest_ofRecords built
  unfold ofRecords at built
  obtain ⟨collected, collects, checks⟩ := bind_eq_ok.1 built
  obtain ⟨⟨⟩, -, climbs⟩ := bind_eq_ok.1 checks
  obtain ⟨⟨⟩, -, done⟩ := bind_eq_ok.1 climbs
  obtain rfl := Except.ok.inj done
  have absent (id : EntityId) : empty.get? id = none := Std.ExtTreeMap.getElem?_empty
  obtain ⟨accepted, below⟩ := foldlM_addRecord small
    (fun id entity found => by simp [absent] at found)
    (fun id present => by
      obtain ⟨entity, found⟩ := contains_iff.1 present
      simp [absent] at found) collects
  have same := collected.sameEntities_recomputeDeep
  refine ⟨forest, fun id after found => ?_, fun id present => ?_⟩
  · obtain ⟨entity, held, alike⟩ := same.alike found
    exact alike.accepted (accepted id entity held)
  · rw [same.next]
    exact below id (same.fewer id present)

/-! ## Children -/

theorem Named.pairwise_toList {relation : Relation} (named : relation.Named) :
    relation.toList.Pairwise fun first second => first.id.toNat < second.id.toNat := by
  rw [← List.pairwise_map (f := Entity.id) (R := fun first second => first.toNat < second.toNat),
    named.map_id_toList]
  exact Std.ExtTreeMap.ordered_keys.imp Identifier.compare_eq_lt.1

/-- The entities that link to a head, by identifier. -/
theorem Named.children_entities {relation : Relation} (named : relation.Named) (head : EntityId) :
    (relation.children head .head).filterMap relation.get? =
      relation.toList.filter fun entity => entity.head == some head := by
  unfold children
  rw [List.filterMap_map]
  refine (List.filterMap_congr fun entity member => ?_).trans List.filterMap_some
  obtain ⟨id, found⟩ := mem_values.1 (List.mem_filter.1 member).1
  have held : relation.get? id = some entity := found
  change relation.get? entity.id = some entity
  rw [named id entity held, held]

/-- The entity is a child of a head and can stand for a node of a concept, with a reference if the
node needs one. -/
def StandsIn (relation : Relation) (concept : ConceptId) (head : EntityId)
    (reference : Option EntityId) (id : EntityId) : Prop :=
  ∃ entity, relation.get? id = some entity ∧ entity.head = some head ∧
    isEquivalent concept reference entity = true

/-- The first child that can stand for a node. -/
def standIn? (relation : Relation) (concept : ConceptId) (head : EntityId)
    (reference : Option EntityId) : Option EntityId :=
  (((relation.children head .head).filterMap relation.get?).find?
    (isEquivalent concept reference)).map Entity.id

theorem Named.mem_children {relation : Relation} (named : relation.Named) {concept : ConceptId}
    {head : EntityId} {reference : Option EntityId} {entity : Entity} :
    entity ∈ (relation.toList.filter fun entity => entity.head == some head).filter
        (isEquivalent concept reference) ↔
      relation.get? entity.id = some entity ∧ entity.head = some head ∧
        isEquivalent concept reference entity = true := by
  simp only [List.mem_filter, toList, mem_values, beq_iff_eq]
  constructor
  · rintro ⟨⟨⟨id, held⟩, linked⟩, stands⟩
    have found : relation.get? id = some entity := held
    exact ⟨(named id entity found).symm ▸ found, linked, stands⟩
  · rintro ⟨found, linked, stands⟩
    exact ⟨⟨⟨entity.id, found⟩, linked⟩, stands⟩

theorem Named.standIn?_eq_some {relation : Relation} (named : relation.Named) {concept : ConceptId}
    {head : EntityId} {reference : Option EntityId} {id : EntityId} :
    relation.standIn? concept head reference = some id ↔
      relation.StandsIn concept head reference id ∧
        ∀ other, relation.StandsIn concept head reference other → id.toNat ≤ other.toNat := by
  have listed := @mem_children _ named concept head reference
  have sorted : ((relation.toList.filter fun entity => entity.head == some head).filter
      (isEquivalent concept reference)).Pairwise fun first second =>
        first.id.toNat < second.id.toNat :=
    (named.pairwise_toList.filter _).filter _
  unfold standIn?
  rw [named.children_entities, ← List.head?_filter]
  generalize (relation.toList.filter fun entity => entity.head == some head).filter
    (isEquivalent concept reference) = children at *
  have all {other : EntityId} (stands : relation.StandsIn concept head reference other) :
      ∃ entity ∈ children, entity.id = other := by
    obtain ⟨entity, found, linked, fits⟩ := stands
    have same := named other entity found
    exact ⟨entity, listed.2 ⟨same.symm ▸ found, linked, fits⟩, same⟩
  cases children with
  | nil =>
    refine ⟨fun impossible => by simp at impossible, fun ⟨stands, _⟩ => ?_⟩
    obtain ⟨entity, member, -⟩ := all stands
    exact absurd member List.not_mem_nil
  | cons first rest =>
    rw [List.head?_cons, Option.map_some, Option.some.injEq]
    have least : ∀ entity ∈ first :: rest, first.id.toNat ≤ entity.id.toNat := by
      intro entity member
      rcases List.mem_cons.1 member with rfl | later
      · exact Nat.le_refl _
      · exact Nat.le_of_lt ((List.pairwise_cons.1 sorted).1 entity later)
    have here := listed.1 List.mem_cons_self
    have stands : relation.StandsIn concept head reference first.id := ⟨first, here⟩
    constructor
    · rintro rfl
      refine ⟨stands, fun other standsToo => ?_⟩
      obtain ⟨entity, member, rfl⟩ := all standsToo
      exact least entity member
    · rintro ⟨standsToo, minimal⟩
      obtain ⟨entity, member, rfl⟩ := all standsToo
      have same := Nat.le_antisymm (minimal first.id stands) (least entity member)
      rcases List.mem_cons.1 member with rfl | later
      · rfl
      · have before := (List.pairwise_cons.1 sorted).1 entity later
        omega

theorem Named.standIn?_eq_none {relation : Relation} (named : relation.Named) {concept : ConceptId}
    {head : EntityId} {reference : Option EntityId} :
    relation.standIn? concept head reference = none ↔
      ∀ id, ¬ relation.StandsIn concept head reference id := by
  unfold standIn?
  rw [named.children_entities, Option.map_eq_none_iff, ← List.head?_filter, List.head?_eq_none_iff]
  constructor
  · rintro empty id ⟨entity, found, linked, fits⟩
    have same := named id entity found
    have member := named.mem_children.2 ⟨same.symm ▸ found, linked, fits⟩
    rw [empty] at member
    exact absurd member List.not_mem_nil
  · intro nobody
    refine List.eq_nil_iff_forall_not_mem.2 fun entity member => nobody entity.id ?_
    exact ⟨entity, named.mem_children.1 member⟩

/-- Where the head of a node and, if it needs one, its reference are there, the first child that can
stand for it is taken. -/
theorem existingChild?_eq_some {relation : Relation} {node : LawNode}
    {head reference : Option BranchSlot} {id : EntityId} :
    relation.existingChild? node head reference = some id ↔
      ∃ above target, head = some (.entity above) ∧
        (node.reference = none ∧ target = none ∨
          node.reference.isSome ∧ ∃ other, reference = some (.entity other) ∧ target = some other) ∧
        relation.standIn? node.concept above target = some id := by
  unfold existingChild?
  cases head with
  | none => simp
  | some slot =>
    cases slot with
    | planned step => simp
    | entity above =>
      dsimp only
      cases needed : node.reference with
      | none => simp [standIn?]
      | some parent =>
        cases reference with
        | none => simp
        | some slot =>
          cases slot with
          | planned step => simp
          | entity other => simp [standIn?]

/-! ## What additions leave alone -/

theorem isEquivalent_of_alike {entity after : Entity} (alike : entity.Alike after)
    (concept : ConceptId) (reference : Option EntityId) :
    isEquivalent concept reference after = isEquivalent concept reference entity := by
  unfold isEquivalent
  rw [alike.concept, alike.reference]

variable {relation later : Relation}

theorem Gains.standsIn (gains : relation.Gains later) {concept : ConceptId} {head id : EntityId}
    {reference : Option EntityId} (stands : relation.StandsIn concept head reference id) :
    later.StandsIn concept head reference id := by
  obtain ⟨entity, found, linked, fits⟩ := stands
  obtain ⟨after, held, alike⟩ := gains.wider.keeps id entity found
  refine ⟨after, held, alike.head.trans linked, ?_⟩
  rw [isEquivalent_of_alike alike]
  exact fits

theorem Gains.standsIn_old (gains : relation.Gains later) {concept : ConceptId}
    {head id : EntityId} {reference : Option EntityId}
    (stands : later.StandsIn concept head reference id)
    (before : id.toNat < relation.nextId.toNat) :
    relation.StandsIn concept head reference id := by
  obtain ⟨after, held, linked, fits⟩ := stands
  obtain ⟨entity, found, alike⟩ := gains.old held before
  refine ⟨entity, found, alike.head.symm.trans linked, ?_⟩
  rw [← isEquivalent_of_alike alike]
  exact fits

/-- The first stand-in is still the first, as new ones come after it. -/
theorem Gains.standIn? (gains : relation.Gains later) (named : relation.Named)
    (below : relation.Below) {concept : ConceptId} {head id : EntityId}
    {reference : Option EntityId}
    (first : relation.standIn? concept head reference = some id) :
    later.standIn? concept head reference = some id := by
  obtain ⟨stands, least⟩ := named.standIn?_eq_some.1 first
  refine (gains.wider.named named).standIn?_eq_some.2 ⟨gains.standsIn stands, fun other another => ?_⟩
  by_contra smaller
  obtain ⟨entity, found, -⟩ := stands
  have known := below id (contains_iff.2 ⟨entity, found⟩)
  exact smaller (least other (gains.standsIn_old another (by omega)))

theorem Gains.existingChild? (gains : relation.Gains later) (named : relation.Named)
    (below : relation.Below) {node : LawNode} {head reference : Option BranchSlot} {id : EntityId}
    (found : relation.existingChild? node head reference = some id) :
    later.existingChild? node head reference = some id := by
  obtain ⟨above, target, there, needed, first⟩ := existingChild?_eq_some.1 found
  exact existingChild?_eq_some.2 ⟨above, target, there, needed, gains.standIn? named below first⟩

end Relation

end ConceptLaws
