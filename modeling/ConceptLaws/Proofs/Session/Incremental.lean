import ConceptLaws.Proofs.Correspondence.Forgetting
import ConceptLaws.Proofs.Correspondence.Interruption
import ConceptLaws.Proofs.Relation.Freshness
import ConceptLaws.Proofs.Session.Grounding

/-! Passes between edits.
A pass of a session looks only at what was not checked before or was flagged. An edit is heeded if the
next pass looks again at whatever it moved, and at an entity of whatever it dropped. In a session whose
edits were heeded, a pass leaves the matches that a matcher without correspondences finds. -/

namespace ConceptLaws

/-! ## Edits of a firm relation -/

namespace Relation

variable {relation later : Relation} {id : EntityId}

/-- An edit that gives no identifiers leaves a firm relation. -/
theorem Firm.of_old (firm : relation.Firm) (forest : later.Forest)
    (next : later.nextId = relation.nextId)
    (old : ∀ id after, later.get? id = some after →
      ∃ entity, relation.get? id = some entity ∧ after.isTentative = entity.isTentative) :
    later.Firm where
  forest := forest
  accepted id after found := by
    obtain ⟨entity, held, same⟩ := old id after found
    exact same.trans (firm.accepted id entity held)
  below id present := by
    obtain ⟨after, found⟩ := contains_iff.1 present
    obtain ⟨entity, held, -⟩ := old id after found
    rw [next]
    exact firm.below id (contains_iff.2 ⟨entity, held⟩)

theorem Firm.update (firm : relation.Firm) {change : Entity → Entity}
    (forest : (relation.update id change).Forest)
    (accepted : ∀ entity : Entity, (change entity).isTentative = entity.isTentative) :
    (relation.update id change).Firm := by
  refine firm.of_old forest rfl fun query after found => ?_
  rw [get?_update] at found
  split at found
  · obtain ⟨entity, held, rfl⟩ := Option.map_eq_some_iff.1 found
    exact ⟨entity, held, accepted entity⟩
  · exact ⟨after, found, rfl⟩

theorem Firm.remove (firm : relation.Firm) {removed : Entity}
    (done : relation.remove id = .ok (removed, later)) : later.Firm := by
  refine firm.of_old (firm.forest.remove done) (remove_fewer done).1 fun query after found => ?_
  rw [(remove_eq_ok done).2] at found
  split at found
  · cases found
  · obtain ⟨entity, held, rfl⟩ := Option.map_eq_some_iff.1 found
    exact ⟨entity, held, rfl⟩

theorem Firm.insert (firm : relation.Firm) {entity : Entity} {catalog : Catalog}
    (accepted : entity.isTentative = false) (small : entity.id.toNat + 1 < UInt64.size)
    (inserted : relation.insert entity catalog = .ok later) : later.Firm := by
  refine ⟨firm.forest.insert inserted, fun id other found => ?_, fun id present => ?_⟩
  · obtain ⟨-, rfl⟩ := insert_eq_ok inserted
    rw [get?_put] at found
    split at found
    · exact Option.some.inj found ▸ accepted
    · exact firm.accepted id other found
  · obtain ⟨-, rfl⟩ := insert_eq_ok inserted
    exact below_put firm.below small present

end Relation

/-- The entities at the deep predicates that a correspondence was built from. -/
def Correspondence.deepEntities (map : Correspondence) : List EntityId :=
  map.deepPredicates.toList.filterMap fun node => map.entityOf[node]?

theorem Correspondence.mem_deepEntities {map : Correspondence} {entity : EntityId} :
    entity ∈ map.deepEntities ↔ ∃ node, map.BuiltAt ⟨entity, node⟩ := by
  unfold deepEntities BuiltAt
  simp only [List.mem_filterMap, Std.ExtTreeSet.mem_toList]

namespace Session

variable {session later : Session} {id : EntityId}

/-- After an edit of an entity, the next pass looks again at all that is below it, and at an entity
from which each of the dropped correspondences was built. -/
structure Heeds (session later : Session) (id : EntityId) : Prop where
  below : ∀ other ∈ later.matcher.checked.keys, (session.relation.ancestors other).contains id = false
  dropped : ∀ map ∈ session.matcher.toList, later.matcher.get? map.id = none →
    ∃ entity ∈ map.deepEntities, entity ∉ later.matcher.checked

instance (session later : Session) (id : EntityId) : Decidable (session.Heeds later id) :=
  decidable_of_iff (_ ∧ _) ⟨fun ⟨below, dropped⟩ => ⟨below, dropped⟩,
    fun heeds => ⟨heeds.below, heeds.dropped⟩⟩

/-- The next pass accepts what it appends, has checks left in the end, and does not run out of
identifiers. -/
abbrev Lasts (session : Session) (options : PassOptions) : Prop :=
  session.matcher.Lasts session.relation session.catalog options session.flagChanged.dirty

/-- Sessions over a catalog whose predicate sets have two deep predicates at most, whose passes lasted
and whose edits were heeded. -/
inductive Tended : Session → Prop
  | ofRecords {catalog : Catalog} {settings : Settings} {records : List EntityRecord}
      {session : Session} (valid : catalog.Valid) (few : catalog.FewDeep)
      (small : ∀ record ∈ records, record.id.toNat + 1 < UInt64.size)
      (made : Session.ofRecords catalog settings records = .ok session) : Tended session
  | add {session later : Session} {record : EntityRecord} (tended : Tended session)
      (small : record.id.toNat + 1 < UInt64.size) (done : session.add record = .ok later) :
      Tended later
  | remove {session later : Session} {id : EntityId} {removed : Entity} (tended : Tended session)
      (done : session.remove id = .ok (removed, later)) (heeds : session.Heeds later id) :
      Tended later
  | setValue {session later : Session} {id : EntityId} {value : Payload} (tended : Tended session)
      (done : session.setValue id value = .ok later) (heeds : session.Heeds later id) : Tended later
  | setConcept {session later : Session} {id : EntityId} {concept : ConceptId}
      (tended : Tended session) (done : session.setConcept id concept = .ok later)
      (heeds : session.Heeds later id) : Tended later
  | setParents {session later : Session} {id : EntityId} {head reference : Option EntityId}
      (tended : Tended session) (done : session.setParents id head reference = .ok later)
      (heeds : session.Heeds later id) : Tended later
  | evaluate {session : Session} {options : PassOptions} (tended : Tended session)
      (lasts : session.Lasts options) : Tended (session.evaluate options).2

/-- Correspondences are grounded, and the books are in order for the next pass. -/
structure Ready (session : Session) : Prop where
  grounded : session.Grounded
  few : session.catalog.FewDeep
  inOrder : session.matcher.InOrder session.catalog session.relation

theorem Ready.firm (ready : session.Ready) : session.relation.Firm :=
  ready.inOrder.traced.counted.firm

theorem ready_ofRecords {catalog : Catalog} {settings : Settings} {records : List EntityRecord}
    (valid : catalog.Valid) (few : catalog.FewDeep)
    (small : ∀ record ∈ records, record.id.toNat + 1 < UInt64.size)
    (made : ofRecords catalog settings records = .ok session) : session.Ready := by
  have grounded := grounded_ofRecords valid made
  obtain ⟨relation, built, rfl⟩ := ofRecords_eq_ok made
  refine ⟨grounded, few, ?_⟩
  exact Matcher.inOrder_empty (Relation.firm_ofRecords built small) settings.maxMapChecks catalog

/-! ## Edits -/

section Edits

variable (ready : session.Ready)

include ready

/-- An edit that is heeded leaves the books in order. The forgotten entities are the edited one and
some that link to it; all others are kept. -/
theorem Ready.edit (gone : List EntityId) {matcher : Matcher} {relation : Relation}
    (forgot : matcher = gone.foldl Matcher.forgetEntity session.matcher) (firm : relation.Firm)
    (edited : id ∈ gone) (linked : ∀ other ∈ gone, other = id ∨ session.relation.Links other id)
    (keeps : ∀ other, other ∉ gone → session.relation.Keeps relation other)
    (below : ∀ other ∈ matcher.checked.keys, (session.relation.ancestors other).contains id = false)
    (dropped : ∀ map ∈ session.matcher.toList, matcher.get? map.id = none →
      ∃ entity ∈ map.deepEntities, entity ∉ matcher.checked) :
    matcher.InOrder session.catalog relation := by
  have forgets := Matcher.forgets_foldl gone ready.grounded.matcher.named
  rw [← forgot] at forgets
  have leaves : (session.matcher.start session.relation).Leaves matcher relation (· ∈ gone) := by
    refine ⟨forgets.start session.relation, firm, fun other noted => ?_,
      fun query map found left => ?_⟩
    · obtain ⟨before, spared⟩ := (forgets.checked other).1 noted
      have apart : ¬ session.relation.Leads other id := by
        have absent := below other (Std.ExtTreeMap.mem_keys.2 noted)
        rwa [← Bool.not_eq_true, ← Std.ExtTreeSet.mem_iff_contains,
          ready.firm.forest.mem_ancestors] at absent
      refine ⟨(ready.inOrder.tried other before).1, keeps other spared, fun above leads =>
        keeps above fun member => ?_⟩
      rcases linked above member with rfl | link
      · exact apart leads
      · exact apart (.tail leads link)
    · have named := ready.grounded.matcher.named query map found
      obtain ⟨entity, member, unnoted⟩ :=
        dropped map (Matcher.mem_toList.2 ⟨query, found⟩) (named ▸ left)
      obtain ⟨node, built⟩ := Correspondence.mem_deepEntities.1 member
      exact ⟨_, built, unnoted⟩
  exact leaves.inOrder ready.inOrder ready.grounded.valid ready.few fun query map found =>
    (ready.grounded.matcher.maps query map found).paired

/-- An edit that touches only the edited entity. -/
theorem Ready.touch {relation : Relation} (firm : relation.Firm)
    (keeps : ∀ other, other ≠ id → session.relation.Keeps relation other)
    (heeds : session.Heeds ({ session with relation }.touch id) id) :
    ({ session with relation }.touch id).Ready :=
  ⟨ready.grounded.touch id firm.forest.named keeps, ready.few,
    ready.edit [id] rfl firm (List.mem_singleton_self id)
      (fun _ member => Or.inl (List.mem_singleton.1 member))
      (fun other spared => keeps other fun same => spared (List.mem_singleton.2 same))
      heeds.below heeds.dropped⟩

theorem Ready.add {record : EntityRecord} (small : record.id.toNat + 1 < UInt64.size)
    (done : session.add record = .ok later) : later.Ready := by
  have grounded := ready.grounded.add done
  obtain ⟨relation, inserted, rfl⟩ := add_eq_ok done
  refine ⟨grounded, ready.few, ?_⟩
  have same := relation.sameEntities_recomputeDeep
  have wider := (Relation.extends_insert inserted).trans same.wider
  have firm := same.firm (ready.firm.insert rfl small inserted)
  have leaves : (session.matcher.start session.relation).Leaves session.matcher
      relation.recomputeDeep fun _ => False :=
    ⟨session.matcher.forgets_refl.start session.relation, firm,
      fun other noted => wider.unmoved (ready.inOrder.tried other noted).1,
      fun id map found left => by cases left.symm.trans found⟩
  exact leaves.inOrder ready.inOrder ready.grounded.valid ready.few fun query map found =>
    (ready.grounded.matcher.maps query map found).paired

theorem Ready.setValue {value : Payload} (done : session.setValue id value = .ok later)
    (heeds : session.Heeds later id) : later.Ready := by
  obtain ⟨relation, edited, rfl⟩ := setValue_eq_ok done
  obtain rfl := Relation.setValue_eq_ok edited
  exact ready.touch (ready.firm.update (ready.firm.forest.update id (fun _ => rfl) fun _ => rfl)
    fun _ => rfl) (keeps_update _ id _) heeds

theorem Ready.setConcept {concept : ConceptId} (done : session.setConcept id concept = .ok later)
    (heeds : session.Heeds later id) : later.Ready := by
  obtain ⟨relation, edited, rfl⟩ := setConcept_eq_ok done
  obtain rfl := Relation.setConcept_eq_ok edited
  exact ready.touch (ready.firm.update (ready.firm.forest.update id (fun _ => rfl) fun _ => rfl)
    fun _ => rfl) (keeps_update _ id _) heeds

theorem Ready.setParents {head reference : Option EntityId}
    (done : session.setParents id head reference = .ok later) (heeds : session.Heeds later id) :
    later.Ready := by
  obtain ⟨relation, edited, rfl⟩ := setParents_eq_ok done
  have forest := ready.firm.forest.setParents edited
  obtain ⟨-, -, rfl⟩ := Relation.setParents_eq_ok edited
  have same := Relation.sameEntities_recomputeDeep (session.relation.update id fun entity =>
    { entity with head := head, reference := reference })
  exact ready.touch (same.firm (ready.firm.update forest fun _ => rfl)) (fun other different =>
    (keeps_update _ id _ other different).trans (same.wider.keeps other)) heeds

theorem Ready.remove {removed : Entity} (done : session.remove id = .ok (removed, later))
    (heeds : session.Heeds later id) : later.Ready := by
  have grounded := ready.grounded.remove done
  have named := ready.firm.forest.named
  obtain ⟨relation, inferred, dirty, shrunk, rfl⟩ := remove_eq_dropTrees done
  have same := relation.sameEntities_recomputeDeep
  have keeps := keeps_remove shrunk named
  have rests := rests_dropTrees { session with
    relation := relation.recomputeDeep
    matcher := (session.dependents id).foldl Matcher.forgetEntity (session.matcher.forgetEntity id)
    inferred := inferred
    dirty := dirty } id
  refine ⟨grounded, by rw [rests.catalog]; exact ready.few, ?_⟩
  rw [rests.catalog, rests.relation]
  refine ready.edit (id :: session.dependents id) rests.matcher
    (same.firm (ready.firm.remove shrunk)) List.mem_cons_self (fun other member => ?_)
    (fun other spared => ?_) heeds.below heeds.dropped
  · rcases List.mem_cons.1 member with rfl | dependent
    · exact Or.inl rfl
    · obtain ⟨entity, listed, rfl⟩ := List.mem_map.1 dependent
      obtain ⟨inside, links⟩ := List.mem_filter.1 listed
      obtain ⟨key, found⟩ := mem_values.1 inside
      obtain rfl := named key entity found
      refine Or.inr ⟨entity, found, ?_⟩
      simpa [Entity.parents] using links
  · rw [List.mem_cons, not_or] at spared
    exact ((keeps other spared.1).resolve_left spared.2).trans (same.wider.keeps other)

omit ready in
/-- An edit of an entity to which nothing links is heeded, if no correspondence has the entity without
having been built from it. -/
theorem heeds_touch (named : ∀ id map, session.matcher.get? id = some map → map.id = id)
    (forest : session.relation.Forest) {relation : Relation}
    (lowest : ∀ other, ¬ session.relation.Links other id)
    (built : ∀ map ∈ session.matcher.toList, map.nodeOf.contains id = true → id ∈ map.deepEntities) :
    session.Heeds ({ session with relation }.touch id) id := by
  have forgets := Matcher.forgets_forgetEntity named id
  refine ⟨fun other _ => ?_, fun map listed left => ?_⟩
  · rw [← Bool.not_eq_true, ← Std.ExtTreeSet.mem_iff_contains, forest.mem_ancestors]
    intro leads
    obtain ⟨last, -, link⟩ := Relation.TransGen.tail'_iff.1 leads
    exact lowest last link
  · obtain ⟨query, found⟩ := Matcher.mem_toList.1 listed
    refine ⟨id, built map listed ?_, fun noted => ((forgets.checked id).1 noted).2 rfl⟩
    by_contra spared
    have kept := (forgets.found query map).2 ⟨found, fun other same =>
      same ▸ Bool.eq_false_iff.2 spared⟩
    rw [named query map found] at left
    cases left.symm.trans kept

/-! ## Passes -/

theorem Ready.evaluate {options : PassOptions} (lasts : session.Lasts options) :
    (session.evaluate options).2.Ready := by
  have grounded := ready.grounded.evaluate options
  obtain ⟨pass, inferred, rfl, passed⟩ := session.evaluate_eq options
  rw [passed] at grounded ⊢
  refine ⟨grounded, ready.few, ?_⟩
  exact ready.inOrder.evaluate ready.grounded.valid ready.few lasts ready.grounded.matcher

theorem Ready.exhausts {options : PassOptions} (lasts : session.Lasts options) :
    (session.evaluate options).2.matcher.Exhausts (session.evaluate options).2.catalog
      (session.evaluate options).2.relation := by
  obtain ⟨pass, inferred, rfl, passed⟩ := session.evaluate_eq options
  rw [passed]
  exact ready.inOrder.exhausts ready.grounded.valid ready.few lasts

end Edits

/-- By induction on the operations. -/
theorem Tended.ready (tended : Tended session) : session.Ready := by
  induction tended with
  | ofRecords valid few small made => exact ready_ofRecords valid few small made
  | add _ small done ih => exact ih.add small done
  | remove _ done heeds ih => exact ih.remove done heeds
  | setValue _ done heeds ih => exact ih.setValue done heeds
  | setConcept _ done heeds ih => exact ih.setConcept done heeds
  | setParents _ done heeds ih => exact ih.setParents done heeds
  | evaluate _ lasts ih => exact ih.evaluate lasts

/-- After a pass of a session whose edits were heeded, the matches are those that a matcher without
correspondences finds in the same relation, as far as they are not among entities that it appends
anew. -/
theorem Tended.matches_fresh (tended : Tended session) {options : PassOptions}
    (lasts : session.Lasts options) (ran : (session.evaluate options).2 = later) {maxChecks : Nat}
    {again : PassOptions} {dirty : Std.ExtTreeSet EntityId}
    (lastsToo : (Matcher.empty maxChecks).Lasts later.relation later.catalog again dirty)
    {fresh : Matcher}
    (ranToo : ((Matcher.empty maxChecks).evaluate later.relation later.catalog again dirty).matcher =
      fresh) :
    (∀ map ∈ later.matcher.satisfied, ∃ twin ∈ fresh.satisfied, map.Matches twin later.catalog) ∧
    ∀ twin ∈ fresh.satisfied,
      (∀ entity ∈ twin.deepEntities, later.relation.contains entity = true) →
        ∃ map ∈ later.matcher.satisfied, map.Matches twin later.catalog := by
  have ready := tended.ready
  have after := ready.evaluate lasts
  have exhausts := ready.exhausts lasts
  rw [ran] at after exhausts
  have blank := Matcher.inOrder_empty after.firm maxChecks later.catalog
  have wider := (Matcher.empty maxChecks).extends_evaluate later.relation later.catalog again dirty
  have exhaustsToo := blank.exhausts after.grounded.valid after.few lastsToo
  rw [ranToo] at exhaustsToo
  obtain ⟨forth, back⟩ := exhausts.matches exhaustsToo after.grounded.valid after.firm wider
  refine ⟨forth, fun twin member present => back twin member fun pair built => ?_⟩
  exact present pair.entity (Correspondence.mem_deepEntities.2 ⟨pair.node, built⟩)

/-! ## A vector that is moved -/

/-- Two points, and a vector at one of them. -/
def twoPoints : Session := ofRelation boundCatalog .standard
  ((Relation.ofRecords (boundRecords ++ [⟨⟨3⟩, ⟨1⟩, none, none, .empty, none⟩])
    boundCatalog).toOption.getD .empty)

/-- After a pass the vector was moved to the other point. -/
def rebound : Session :=
  (((twoPoints.evaluate .standard).2.setParents ⟨2⟩ (some ⟨3⟩) none).toOption).getD twoPoints

theorem tended_rebound : Tended rebound := by
  have made : ofRecords boundCatalog .standard
      (boundRecords ++ [⟨⟨3⟩, ⟨1⟩, none, none, .empty, none⟩]) = .ok twoPoints := rfl
  have start : Tended twoPoints := .ofRecords valid_boundCatalog (by decide +kernel) (by decide +kernel)
    made
  have passed : Tended (twoPoints.evaluate .standard).2 := start.evaluate (by decide +kernel)
  have done : (twoPoints.evaluate .standard).2.setParents ⟨2⟩ (some ⟨3⟩) none = .ok rebound := rfl
  exact passed.setParents done (by decide +kernel)

/-- The next pass matches the vector where it is now. -/
theorem matches_fresh_rebound : ∃ map ∈ (rebound.evaluate .standard).2.matcher.satisfied,
    map.entityOf[(⟨1001⟩ : LawNodeId)]? = some ⟨3⟩ ∧
      map.entityOf[(⟨1002⟩ : LawNodeId)]? = some ⟨2⟩ := by
  have lasts : rebound.Lasts .standard := by decide +kernel
  have lastsToo : (Matcher.empty 1000).Lasts (rebound.evaluate .standard).2.relation
    (rebound.evaluate .standard).2.catalog .standard ∅ := by decide +kernel
  obtain ⟨-, back⟩ := tended_rebound.matches_fresh lasts rfl lastsToo rfl
  have found : ∃ twin ∈ ((Matcher.empty 1000).evaluate (rebound.evaluate .standard).2.relation
      (rebound.evaluate .standard).2.catalog .standard ∅).matcher.satisfied, twin.law = ⟨100⟩ ∧
      twin.entityOf[(⟨1001⟩ : LawNodeId)]? = some ⟨3⟩ ∧
      twin.entityOf[(⟨1002⟩ : LawNodeId)]? = some ⟨2⟩ ∧ ∀ entity ∈ twin.deepEntities,
        (rebound.evaluate .standard).2.relation.contains entity = true := by decide +kernel
  obtain ⟨twin, member, named, point, vector, present⟩ := found
  obtain ⟨map, there, same⟩ := back twin member present
  have single : ∃ law ∈ (rebound.evaluate .standard).2.catalog.laws, law.id = ⟨100⟩ ∧
      law.predicateSets.length = 1 ∧ law.isPredicate ⟨1001⟩ = true ∧
      law.isPredicate ⟨1002⟩ = true := by decide +kernel
  obtain ⟨law, listed, called, one, below, above⟩ := single
  have alike := same.predicates law listed (called.trans (named.symm.trans same.law)) one
  exact ⟨map, there, (alike _ below).symm.trans point, (alike _ above).symm.trans vector⟩

/-- An edit of the point drops the match that was seeded at the vector, and the next pass looks only at
the point. -/
theorem not_forall_matches_fresh : ¬∀ (session later : Session) (id : EntityId) (value : Payload),
    Tended session → session.setValue id value = .ok later → later.Lasts .standard →
    (Matcher.empty later.matcher.maxChecks).Lasts (later.evaluate .standard).2.relation later.catalog
      .standard ∅ →
    ∀ twin ∈ ((Matcher.empty later.matcher.maxChecks).evaluate (later.evaluate .standard).2.relation
      later.catalog .standard ∅).matcher.satisfied,
      ∃ map ∈ (later.evaluate .standard).2.matcher.satisfied, map.Matches twin later.catalog := by
  intro all
  let later := (matched.setValue ⟨1⟩ ⟨[.atom "x"]⟩).toOption.getD matched
  have made : ofRecords boundCatalog .standard boundRecords = .ok unmatched := rfl
  have start : Tended unmatched := .ofRecords valid_boundCatalog (by decide +kernel)
    (by decide +kernel) made
  have passed : Tended matched := start.evaluate (by decide +kernel)
  have done : matched.setValue ⟨1⟩ ⟨[.atom "x"]⟩ = .ok later := rfl
  have lost : (later.evaluate .standard).2.matcher.satisfied = [] := by decide +kernel
  have found : ∃ twin ∈ ((Matcher.empty later.matcher.maxChecks).evaluate
      (later.evaluate .standard).2.relation later.catalog .standard ∅).matcher.satisfied, True := by
    decide +kernel
  obtain ⟨twin, member, -⟩ := found
  obtain ⟨map, there, -⟩ :=
    all matched later ⟨1⟩ _ passed done (by decide +kernel) (by decide +kernel) twin member
  rw [lost] at there
  exact List.not_mem_nil there

/-- A p, and the r below it that followed in a pass. -/
def followed : Session :=
  ((ofRelation Matcher.below .standard (letterRelation [letterRecord 1 1 none])).evaluate .standard).2

/-- Nothing is below r, but the match has it as its conclusion, and was built from p only. -/
theorem loses_concluded : ∃ later, followed.setValue ⟨2⟩ ⟨[.atom "x"]⟩ = .ok later ∧
    later.Lasts .standard ∧
    (∀ other ∈ later.matcher.checked.keys, (followed.relation.ancestors other).contains ⟨2⟩ = false) ∧
    (later.evaluate .standard).2.matcher.satisfied = [] ∧
    ((Matcher.empty later.matcher.maxChecks).evaluate (later.evaluate .standard).2.relation
      later.catalog .standard ∅).matcher.satisfied ≠ [] :=
  ⟨(followed.setValue ⟨2⟩ ⟨[.atom "x"]⟩).toOption.getD followed, rfl, by decide +kernel,
    by decide +kernel, by decide +kernel, by decide +kernel⟩

end Session

end ConceptLaws
