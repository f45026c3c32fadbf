import ConceptLaws.Proofs.Relation.Forest
import ConceptLaws.Proofs.Relation.Records

/-! Relations from lists of records.
A list of records is loaded exactly if its concepts exist, its identifiers are distinct, its links
name records of the list, and no links run in a cycle. The order of the list makes no difference.
The topological order of a forest lists every entity once, after its parents. -/

namespace ConceptLaws

namespace Relation

/-! ## The topological order of a forest -/

/-- Whoever is listed was not listed before. -/
theorem Listing.nodup_listReady {relation : Relation} {childrenOf : EntityId → List EntityId}
    (table : relation.ChildTable childrenOf) (turns : Nat) {listed ready : List EntityId}
    {openParents : OpenParents} (listing : relation.Listing listed openParents ready) :
    (relation.listReady childrenOf turns openParents ready).Nodup ∧
      ∀ id ∈ relation.listReady childrenOf turns openParents ready,
        relation.contains id = true ∧ id ∉ listed := by
  induction turns generalizing listed openParents ready with
  | zero => simp [Relation.listReady]
  | succ turns ih =>
    cases ready with
    | nil => simp [Relation.listReady]
    | cons first waiting =>
      obtain ⟨present, new, -⟩ := listing.mem_ready.1 List.mem_cons_self
      obtain ⟨once, later⟩ := ih (listing.step table)
      refine ⟨List.nodup_cons.2 ⟨fun again => ?_, once⟩, fun id member => ?_⟩
      · exact (later first again).2 List.mem_cons_self
      · rcases List.mem_cons.1 member with rfl | after
        · exact ⟨present, new⟩
        · obtain ⟨there, apart⟩ := later id after
          exact ⟨there, fun before => apart (List.mem_cons_of_mem _ before)⟩

/-- Every entity is listed once, and after all its parents. -/
structure Ordered (relation : Relation) (order : List EntityId) : Prop where
  once : order.Nodup
  all : ∀ id : EntityId, id ∈ order ↔ relation.contains id = true
  later : ∀ (before after : List EntityId) (child : EntityId), order = before ++ child :: after →
    ∀ parent : EntityId, relation.Links child parent → parent ∈ before

theorem ParentsFirst.mem_before {relation : Relation} {listed order : List EntityId}
    (sorted : relation.ParentsFirst listed order) {before after : List EntityId} {child : EntityId}
    (split : order = before ++ child :: after) {parent : EntityId}
    (linked : parent ∈ relation.above child) : parent ∈ listed ∨ parent ∈ before := by
  induction sorted generalizing before with
  | nil => simp at split
  | @cons listed rest first parents _ ih =>
    cases before with
    | nil =>
      obtain ⟨rfl, -⟩ := List.cons.inj split
      exact .inl (parents parent linked)
    | cons head before =>
      obtain ⟨rfl, tail⟩ := List.cons.inj split
      rcases ih tail with earlier | between
      · rcases List.mem_cons.1 earlier with rfl | known
        · exact .inr List.mem_cons_self
        · exact .inl known
      · exact .inr (List.mem_cons_of_mem _ between)

theorem Forest.ordered_topological {relation : Relation} (forest : relation.Forest) :
    relation.Ordered relation.topological := by
  have whole : ∀ id, relation.contains id → id ∈ relation.topological :=
    checkCycles_eq_ok.1 ((checkCycles_iff forest.named forest.grounded).2 forest.acyclic)
  have listed := relation.listing_start.nodup_listReady relation.childTable_childTable relation.size
  rw [← forest.named.topological_eq] at listed
  refine ⟨listed.1, fun id => ⟨fun member => (listed.2 id member).1, whole id⟩, ?_⟩
  intro before after child split parent link
  exact (forest.named.topological.1.mem_before split (forest.mem_above.2 link)).resolve_left
    List.not_mem_nil

/-! ## Collecting records -/

/-- The entities of records; links are not looked at. -/
def collected (records : List EntityRecord) : Relation :=
  records.foldl (fun relation record => relation.put (Entity.ofRecord record)) empty

theorem addRecord_eq_ok {catalog : Catalog} {relation later : Relation} {record : EntityRecord} :
    addRecord catalog relation record = .ok later ↔
      (catalog.concept? record.concept).isSome = true ∧ ¬ relation.contains record.id = true ∧
        later = relation.put (Entity.ofRecord record) := by
  unfold addRecord
  split
  · rename_i unknown
    simp [Option.isNone_iff_eq_none.1 unknown]
  rename_i known
  split
  · rename_i taken
    simp [taken]
  · rename_i new
    have found : (catalog.concept? record.concept).isSome = true := by
      simpa [Option.isSome_iff_ne_none] using known
    simpa [found, new] using eq_comm

/-- Records are taken one after the other if their concepts exist and their identifiers are new. -/
theorem foldlM_addRecord_eq_ok {catalog : Catalog} {records : List EntityRecord} :
    ∀ {start later : Relation}, records.foldlM (addRecord catalog) start = .ok later ↔
      (∀ record ∈ records, (catalog.concept? record.concept).isSome = true) ∧
      (records.map EntityRecord.id).Nodup ∧
      (∀ record ∈ records, ¬ start.contains record.id = true) ∧
      later =
        records.foldl (fun relation record => relation.put (Entity.ofRecord record)) start := by
  induction records with
  | nil =>
    intro start later
    simpa [pure, Except.pure] using eq_comm
  | cons first rest ih =>
    intro start later
    have absent {record : EntityRecord} :
        ¬ (start.put (Entity.ofRecord first)).contains record.id = true ↔
          ¬ first.id = record.id ∧ ¬ start.contains record.id = true := by
      rw [contains_put, not_or, eq_comm]
      rfl
    rw [List.foldlM_cons, bind_eq_ok]
    simp only [addRecord_eq_ok, ih, List.forall_mem_cons, List.map_cons, List.nodup_cons, List.foldl_cons,
      List.mem_map, not_exists, not_and]
    constructor
    · rintro ⟨middle, ⟨known, new, rfl⟩, allKnown, unique, allNew, rfl⟩
      refine ⟨⟨known, allKnown⟩, ⟨fun record member same => ?_, unique⟩, ⟨new, ?_⟩, rfl⟩
      · exact (absent.1 (allNew record member)).1 same.symm
      · exact fun record member => (absent.1 (allNew record member)).2
    · rintro ⟨⟨known, allKnown⟩, ⟨once, unique⟩, ⟨new, allNew⟩, rfl⟩
      refine ⟨_, ⟨known, new, rfl⟩, allKnown, unique, fun record member => ?_, rfl⟩
      exact absent.2 ⟨fun same => once record member same.symm, allNew record member⟩

theorem get?_empty (id : EntityId) : empty.get? id = none := Std.ExtTreeMap.getElem?_empty

/-- An entity is that of the record with its identifier, or it was there before. -/
theorem get?_foldl_put {id : EntityId} {entity : Entity} {records : List EntityRecord}
    (distinct : (records.map EntityRecord.id).Nodup) {start : Relation} :
    (records.foldl (fun relation record =>
        relation.put (Entity.ofRecord record)) start).get? id = some entity ↔
      (∃ record ∈ records, record.id = id ∧ Entity.ofRecord record = entity) ∨
        (start.get? id = some entity ∧ ∀ record ∈ records, record.id ≠ id) := by
  induction records generalizing start with
  | nil => simp
  | cons first rest ih =>
    obtain ⟨once, distinct⟩ := List.nodup_cons.1 distinct
    rw [List.foldl_cons, ih distinct, get?_put]
    have here : (Entity.ofRecord first).id = first.id := rfl
    by_cases same : id = first.id
    · have apart : ∀ record ∈ rest, record.id ≠ id := fun record member equal =>
        once (same ▸ equal ▸ List.mem_map_of_mem member)
      rw [here, if_pos same]
      simp only [List.exists_mem_cons_iff, List.forall_mem_cons, same, ne_eq, not_true_eq_false,
        false_and, and_false, or_false, true_and, Option.some.injEq]
      have later : ¬ ∃ record ∈ rest, record.id = first.id ∧ Entity.ofRecord record = entity := by
        rintro ⟨record, member, equal, -⟩
        exact apart record member (equal.trans same.symm)
      simp only [later, false_or, or_false, and_iff_left_iff_imp]
      exact fun _ record member => same ▸ apart record member
    · rw [here, if_neg same]
      simp only [List.exists_mem_cons_iff, List.forall_mem_cons, Ne.symm same, ne_eq,
        not_false_eq_true, false_and, false_or, true_and]

theorem get?_collected {records : List EntityRecord}
    (distinct : (records.map EntityRecord.id).Nodup) {id : EntityId} {entity : Entity} :
    (collected records).get? id = some entity ↔
      ∃ record ∈ records, record.id = id ∧ Entity.ofRecord record = entity := by
  unfold collected
  rw [get?_foldl_put distinct]
  simp [get?_empty]

/-- A record of the list names another identifier as its head or its reference. -/
def LinksIn (records : List EntityRecord) (child parent : EntityId) : Prop :=
  ∃ record ∈ records, record.id = child ∧
    (record.head = some parent ∨ record.reference = some parent)

theorem links_collected {records : List EntityRecord}
    (distinct : (records.map EntityRecord.id).Nodup) {child parent : EntityId} :
    (collected records).Links child parent ↔ LinksIn records child parent := by
  have parents (record : EntityRecord) : parent ∈ (Entity.ofRecord record).parents ↔
      record.head = some parent ∨ record.reference = some parent := by
    simp [Entity.parents, Entity.ofRecord]
  unfold Links LinksIn
  simp only [get?_collected distinct]
  constructor
  · rintro ⟨entity, ⟨record, member, same, rfl⟩, linked⟩
    exact ⟨record, member, same, (parents record).1 linked⟩
  · rintro ⟨record, member, same, linked⟩
    exact ⟨_, ⟨record, member, same, rfl⟩, (parents record).2 linked⟩

theorem contains_collected {records : List EntityRecord}
    (distinct : (records.map EntityRecord.id).Nodup) {id : EntityId} :
    (collected records).contains id = true ↔ ∃ record ∈ records, record.id = id := by
  rw [contains_iff]
  simp only [get?_collected distinct]
  constructor
  · rintro ⟨-, record, member, same, -⟩
    exact ⟨record, member, same⟩
  · rintro ⟨record, member, same⟩
    exact ⟨_, record, member, same, rfl⟩

theorem named_collected {records : List EntityRecord}
    (distinct : (records.map EntityRecord.id).Nodup) : (collected records).Named := by
  intro id entity found
  obtain ⟨record, -, same, rfl⟩ := (get?_collected distinct).1 found
  exact same

/-! ## Which records are loaded -/

/-- What a list of records needs to be loaded. -/
structure Loadable (catalog : Catalog) (records : List EntityRecord) : Prop where
  known : ∀ record ∈ records, ∃ concept ∈ catalog.concepts, concept.id = record.concept
  distinct : (records.map EntityRecord.id).Nodup
  grounded : ∀ child parent : EntityId, LinksIn records child parent →
    ∃ record ∈ records, record.id = parent
  acyclic : ∀ id : EntityId, ¬ Relation.TransGen (LinksIn records) id id

theorem isSome_concept? {catalog : Catalog} {id : ConceptId} :
    (catalog.concept? id).isSome = true ↔ ∃ concept ∈ catalog.concepts, concept.id = id := by
  simp [Catalog.concept?, Definition.concept?, Catalog.concepts]

theorem forM_checkLinks_eq_ok {relation : Relation} :
    relation.toList.forM relation.checkLinks = .ok () ↔
      ∀ child parent : EntityId, relation.Links child parent → relation.contains parent = true := by
  rw [forM_eq_ok]
  simp only [checkLinks_eq_ok]
  constructor
  · rintro linked child parent ⟨entity, found, member⟩
    exact linked entity (mem_values.2 ⟨child, found⟩) parent member
  · intro linked entity member parent link
    obtain ⟨child, found⟩ := mem_values.1 member
    exact linked child parent ⟨entity, found, link⟩

theorem ofRecords_eq_ok_iff {records : List EntityRecord} {catalog : Catalog}
    {relation : Relation} : ofRecords records catalog = .ok relation ↔
      Loadable catalog records ∧ relation = (collected records).recomputeDeep := by
  have checks (distinct : (records.map EntityRecord.id).Nodup) :
      ((∀ child parent : EntityId, (collected records).Links child parent →
          (collected records).contains parent = true) ∧
        (collected records).checkCycles = .ok ()) ↔
      (∀ child parent : EntityId, LinksIn records child parent →
          ∃ record ∈ records, record.id = parent) ∧
        ∀ id : EntityId, ¬ Relation.TransGen (LinksIn records) id id := by
    have links : (collected records).Links = LinksIn records := by
      funext child parent
      exact propext (links_collected distinct)
    simp only [← contains_collected distinct, ← links]
    exact and_congr_right fun grounded =>
      checkCycles_iff (named_collected distinct) (grounded _ _)
  unfold ofRecords
  simp only [bind_eq_ok, foldlM_addRecord_eq_ok, isSome_concept?]
  constructor
  · rintro ⟨start, ⟨known, distinct, -, rfl⟩, ⟨⟩, linked, ⟨⟩, climbs, done⟩
    obtain ⟨grounded, acyclic⟩ := (checks distinct).1 ⟨forM_checkLinks_eq_ok.1 linked, climbs⟩
    exact ⟨⟨known, distinct, grounded, acyclic⟩, (Except.ok.inj done).symm⟩
  · rintro ⟨⟨known, distinct, grounded, acyclic⟩, rfl⟩
    obtain ⟨linked, climbs⟩ := (checks distinct).2 ⟨grounded, acyclic⟩
    refine ⟨collected records, ⟨known, distinct, fun record _ => ?_, rfl⟩, (),
      forM_checkLinks_eq_ok.2 linked, (), climbs, rfl⟩
    rw [contains_iff]
    simp [get?_empty]

/-! ## The order of the records -/

theorem toNat_maximum {kind : IdKind} (left right : Identifier kind) :
    (left.maximum right).toNat = max left.toNat right.toNat := by
  unfold Identifier.maximum Identifier.toNat
  split
  · rename_i less
    exact (Nat.max_eq_right (Nat.le_of_lt (UInt64.lt_iff_toNat_lt.1 less))).symm
  · rename_i more
    exact (Nat.max_eq_left (Nat.not_lt.1 fun less => more (UInt64.lt_iff_toNat_lt.2 less))).symm

theorem maximum_right_comm {kind : IdKind} (first second third : Identifier kind) :
    (first.maximum second).maximum third = (first.maximum third).maximum second := by
  have injective {left right : Identifier kind} (same : left.toNat = right.toNat) :
      left = right := by
    cases left
    cases right
    exact congrArg _ (UInt64.toNat_inj.1 same)
  apply injective
  simp only [toNat_maximum]
  exact Nat.max_right_comm _ _ _

/-- Entities with different identifiers are put in either order. -/
theorem put_comm (relation : Relation) {first second : Entity} (different : first.id ≠ second.id) :
    (relation.put first).put second = (relation.put second).put first := by
  refine ext_get? (fun query => ?_) (maximum_right_comm _ _ _)
  simp only [get?_put]
  by_cases here : query = first.id
  · rw [if_pos here, if_neg (here ▸ different), if_pos here]
  · rw [if_neg here, if_neg here]

theorem collected_perm {records permuted : List EntityRecord} (permutation : permuted.Perm records)
    (distinct : (permuted.map EntityRecord.id).Nodup) : collected permuted = collected records := by
  refine permutation.foldl_eq' (fun first inList second inListToo relation => ?_) empty
  by_cases same : first.id = second.id
  · rw [List.inj_on_of_nodup_map distinct inList inListToo same]
  · exact put_comm relation same

theorem Loadable.perm {catalog : Catalog} {records permuted : List EntityRecord}
    (loadable : Loadable catalog records) (permutation : permuted.Perm records) :
    Loadable catalog permuted where
  known record member := loadable.known record (permutation.mem_iff.1 member)
  distinct := (permutation.map EntityRecord.id).nodup_iff.2 loadable.distinct
  grounded child parent link := by
    simp only [LinksIn, permutation.mem_iff] at link ⊢
    exact loadable.grounded child parent link
  acyclic id cycle := by
    have links : LinksIn permuted = LinksIn records := by
      funext child parent
      simp only [LinksIn, permutation.mem_iff]
    exact loadable.acyclic id (links ▸ cycle)

/-- A loaded relation has the records that it was loaded from. -/
theorem toRecords_perm {records : List EntityRecord}
    (distinct : (records.map EntityRecord.id).Nodup) :
    (collected records).recomputeDeep.toRecords.Perm records := by
  have named := (collected records).extends_recomputeDeep.named (named_collected distinct)
  have ids : (collected records).recomputeDeep.toRecords.map EntityRecord.id =
      (collected records).recomputeDeep.ids := by
    rw [← named.map_id_toList, toRecords, List.map_map]
    rfl
  refine (List.perm_ext_iff_of_nodup (List.Nodup.of_map _ (ids ▸ nodup_ids _))
    (List.Nodup.of_map _ distinct)).2 fun record => ?_
  have found : _ = some record ↔ record.id = record.id ∧ record ∈ _ := mem_toRecords named
  rw [get?_recomputeDeep, Option.map_map] at found
  rw [← (found.trans (and_iff_right rfl)), Option.map_eq_some_iff]
  simp only [get?_collected distinct]
  constructor
  · rintro ⟨entity, ⟨other, member, -, rfl⟩, rfl⟩
    exact member
  · exact fun member => ⟨_, ⟨record, member, rfl, rfl⟩, rfl⟩

/-- Records are loaded exactly if they are loadable, with one result for all their orders. The
result holds the records, and whatever is called on it later, its topological order lists every
entity once and after its parents. -/
theorem loading_exact (records : List EntityRecord) (catalog : Catalog) :
    ((∃ relation, ofRecords records catalog = .ok relation) ↔ Loadable catalog records) ∧
    (∀ permuted : List EntityRecord, permuted.Perm records → ∀ relation : Relation,
      ofRecords permuted catalog = .ok relation ↔ ofRecords records catalog = .ok relation) ∧
    ∀ relation : Relation, ofRecords records catalog = .ok relation →
      relation.toRecords.Perm records ∧ ∀ edits : List Edit,
        (relation.performAll edits).Ordered (relation.performAll edits).topological := by
  refine ⟨?_, fun permuted permutation relation => ?_, fun relation built => ⟨?_, fun edits => ?_⟩⟩
  · simp only [ofRecords_eq_ok_iff]
    exact ⟨fun ⟨_, loadable, _⟩ => loadable, fun loadable => ⟨_, loadable, rfl⟩⟩
  · rw [ofRecords_eq_ok_iff, ofRecords_eq_ok_iff]
    constructor
    · rintro ⟨loadable, rfl⟩
      exact ⟨loadable.perm permutation.symm,
        congrArg recomputeDeep (collected_perm permutation loadable.distinct)⟩
    · rintro ⟨loadable, rfl⟩
      exact ⟨loadable.perm permutation,
        congrArg recomputeDeep (collected_perm permutation.symm loadable.distinct)⟩
  · obtain ⟨loadable, rfl⟩ := ofRecords_eq_ok_iff.1 built
    exact toRecords_perm loadable.distinct
  · exact ((forest_ofRecords built).performAll edits).ordered_topological

/-- The third point may come first. -/
example : ofRecords threePoints.reverse pointCatalog = .ok points := rfl

end Relation

end ConceptLaws
