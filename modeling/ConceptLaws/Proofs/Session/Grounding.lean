import ConceptLaws.Proofs.Correspondence.Grounding
import ConceptLaws.Proofs.Session.Reachable

/-! Correspondences of a session.
Every edit drops the correspondences that it invalidates: those in which an edited entity occurs,
and with a removed entity also those with an entity that linked to it. What is left stands on the
relation as it is now. -/

namespace ConceptLaws

/-- The catalogs say the same of matching: of the links of each law node, of the entities it
accepts, of the concepts that are symmetric, and of the predicates. -/
structure Catalog.Agrees (catalog other : Catalog) : Prop where
  links : ∀ law id, (other.lawNode? law id).map LawNode.parent =
    (catalog.lawNode? law id).map LawNode.parent
  accepts : ∀ law id entity, (other.lawNode? law id).map (fun node => node.accepts other entity) =
    (catalog.lawNode? law id).map fun node => node.accepts catalog entity
  orientations : ∀ concept, other.orientations concept = catalog.orientations concept
  predicates : ∀ law id, other.isPredicate law id = catalog.isPredicate law id

namespace Catalog

theorem agrees_refl (catalog : Catalog) : catalog.Agrees catalog :=
  ⟨fun _ _ => rfl, fun _ _ _ => rfl, fun _ => rfl, fun _ _ => rfl⟩

/-- No two of the catalogs have one fingerprint but say different things of matching. -/
def Faithful (catalogs : List Catalog) : Prop :=
  ∀ catalog ∈ catalogs, ∀ other ∈ catalogs, catalog.fingerprint = other.fingerprint →
    catalog.Agrees other

/-- Sides are exchanged only for a symmetric concept. -/
theorem exchanged_of_mem_orientations {catalog : Catalog} {id : ConceptId}
    (allowed : true ∈ catalog.orientations id) :
    ∃ concept, catalog.concept? id = some concept ∧ concept.symmetric = true := by
  unfold orientations at allowed
  split at allowed
  · rename_i symmetric
    cases found : catalog.concept? id with
    | none => simp [found] at symmetric
    | some concept => exact ⟨concept, rfl, by simpa [found] using symmetric⟩
  · simp at allowed

theorem Agrees.needs {catalog other : Catalog} (agrees : catalog.Agrees other) {law : LawId}
    {node id : LawNodeId} (needs : other.Needs law node id) : catalog.Needs law node id := by
  induction needs with
  | self => exact .self
  | @link middle _ _ side _ found leads ih =>
    have same := agrees.links law middle
    rw [found, Option.map_some] at same
    obtain ⟨before, named, parents⟩ := Option.map_eq_some_iff.1 same.symm
    exact ih.link side named (by rw [parents]; exact leads)

end Catalog

/-- A correspondence reads the same in a catalog that says the same. -/
theorem Correspondence.Grounded.reread {map : Correspondence} {catalog other : Catalog}
    {relation : Relation} (grounded : map.Grounded catalog relation)
    (agrees : catalog.Agrees other) : map.Grounded other relation := by
  refine ⟨grounded.paired, fun deep built => ?_, fun deep built id needs => ?_⟩
  · rw [agrees.predicates]
    exact grounded.rooted deep built
  · obtain ⟨node, place, entity, swapped, named, holds, found, accepted, allowed, linked⟩ :=
      grounded.fits deep built id (agrees.needs needs)
    have links := agrees.links map.law id
    have accepts := agrees.accepts map.law id entity
    rw [named, Option.map_some] at links accepts
    obtain ⟨after, namedAfter, parents⟩ := Option.map_eq_some_iff.1 links
    rw [namedAfter, Option.map_some] at accepts
    refine ⟨after, place, entity, swapped, namedAfter, holds, found, ?_, ?_, ?_⟩
    · rw [Option.some.inj accepts]
      exact accepted
    · rw [agrees.orientations]
      exact allowed
    · rw [parents]
      exact linked

namespace Session

/-- The catalog passed its checks, entities are kept under their identifiers, and all
correspondences stand on the relation. -/
structure Grounded (session : Session) : Prop where
  valid : session.catalog.Valid
  named : session.relation.Named
  matcher : session.matcher.Grounded session.catalog session.relation

variable {session later : Session}

theorem Grounded.rest (grounded : session.Grounded) (rests : session.Rests later) :
    later.Grounded := by
  refine ⟨?_, ?_, ?_⟩
  · rw [rests.catalog]
    exact grounded.valid
  · rw [rests.relation]
    exact grounded.named
  · rw [rests.matcher, rests.catalog, rests.relation]
    exact grounded.matcher

theorem Grounded.resolve (grounded : session.Grounded) (name : String) :
    (session.resolve name).2.Grounded :=
  grounded.rest (session.rests_resolve name)

/-- The relation was extended. -/
theorem Grounded.extend (grounded : session.Grounded) {relation : Relation}
    (wider : session.relation.Extends relation) : { session with relation }.Grounded :=
  ⟨grounded.valid, wider.named grounded.named, grounded.matcher.extend wider⟩

theorem grounded_ofRecords {catalog : Catalog} {settings : Settings} {records : List EntityRecord}
    (valid : catalog.Valid) (made : Session.ofRecords catalog settings records = .ok session) :
    session.Grounded := by
  obtain ⟨relation, built, rfl⟩ := ofRecords_eq_ok made
  exact ⟨valid, Relation.named_ofRecords built, Matcher.grounded_of_isEmpty rfl⟩

theorem Grounded.add (grounded : session.Grounded) {record : EntityRecord}
    (done : session.add record = .ok later) : later.Grounded := by
  obtain ⟨relation, inserted, rfl⟩ := add_eq_ok done
  have wider := (Relation.extends_insert inserted).trans relation.extends_recomputeDeep
  exact (grounded.extend wider).rest ⟨rfl, rfl, rfl, rfl, rfl⟩

/-! ## Edits -/

theorem Grounded.touch {relation : Relation} (grounded : session.Grounded) (id : EntityId)
    (named : relation.Named) (keeps : ∀ other, other ≠ id → session.relation.Keeps relation other) :
    ({ session with relation }.touch id).Grounded := by
  refine ⟨grounded.valid, named, ?_⟩
  refine (grounded.matcher.forgetEntity id).edit fun other => ?_
  by_cases same : other = id
  · rw [same]
    exact Or.inr (grounded.matcher.avoids_forgetEntity id)
  · exact Or.inl (keeps other same)

theorem keeps_update (relation : Relation) (id : EntityId) (change : Entity → Entity) :
    ∀ other, other ≠ id → relation.Keeps (relation.update id change) other := by
  intro other different
  exact Relation.keeps_of_get? (by rw [Relation.get?_update, if_neg different])

theorem Grounded.setValue (grounded : session.Grounded) {id : EntityId} {value : Payload}
    (done : session.setValue id value = .ok later) : later.Grounded := by
  obtain ⟨relation, edited, rfl⟩ := setValue_eq_ok done
  obtain rfl := Relation.setValue_eq_ok edited
  exact grounded.touch id (grounded.named.update id fun _ => rfl) (keeps_update _ id _)

theorem Grounded.setConcept (grounded : session.Grounded) {id : EntityId} {concept : ConceptId}
    (done : session.setConcept id concept = .ok later) : later.Grounded := by
  obtain ⟨relation, edited, rfl⟩ := setConcept_eq_ok done
  obtain rfl := Relation.setConcept_eq_ok edited
  exact grounded.touch id (grounded.named.update id fun _ => rfl) (keeps_update _ id _)

theorem Grounded.setParents (grounded : session.Grounded) {id : EntityId}
    {head reference : Option EntityId} (done : session.setParents id head reference = .ok later) :
    later.Grounded := by
  obtain ⟨relation, edited, rfl⟩ := setParents_eq_ok done
  obtain ⟨-, -, rfl⟩ := Relation.setParents_eq_ok edited
  have deep := Relation.extends_recomputeDeep (session.relation.update id fun entity =>
    { entity with head := head, reference := reference })
  exact grounded.touch id (deep.named (grounded.named.update id fun _ => rfl))
    fun other different => (keeps_update _ id _ other different).trans (deep.keeps other)

/-- The entities that link to a removed one are dependents of it. -/
theorem keeps_remove {relation : Relation} {id : EntityId} {removed : Entity}
    (done : session.relation.remove id = .ok (removed, relation)) (named : session.relation.Named) :
    ∀ other, other ≠ id → other ∈ session.dependents id ∨ session.relation.Keeps relation other := by
  obtain ⟨-, left⟩ := Relation.remove_eq_ok done
  intro other different
  cases before : session.relation.get? other with
  | none => exact Or.inr fun entity held => by simp [before] at held
  | some entity =>
    by_cases linked : entity.head = some id ∨ entity.reference = some id
    · refine Or.inl (List.mem_map.2 ⟨entity, List.mem_filter.2 ⟨?_, by simpa using linked⟩,
        named other entity before⟩)
      exact mem_values.2 ⟨other, before⟩
    · simp only [not_or] at linked
      refine Or.inr (Relation.keeps_of_get? ?_)
      rw [left, if_neg different, before, Option.map_some]
      unfold Entity.unlink
      rw [if_neg linked.1, if_neg linked.2]

theorem Grounded.remove (grounded : session.Grounded) {id : EntityId} {removed : Entity}
    (done : session.remove id = .ok (removed, later)) : later.Grounded := by
  obtain ⟨relation, inferred, dirty, shrunk, rfl⟩ := remove_eq_dropTrees done
  have keeps := keeps_remove shrunk grounded.named
  have deep := relation.extends_recomputeDeep
  refine Grounded.rest ?_ (rests_dropTrees _ id)
  refine ⟨grounded.valid, deep.named (grounded.named.remove shrunk), ?_⟩
  obtain ⟨all, avoids⟩ :=
    (grounded.matcher.forgetEntity id).foldl_forgetEntity (session.dependents id)
  refine all.edit fun other => ?_
  by_cases same : other = id
  · rw [same]
    exact Or.inr (avoids id (Or.inr (grounded.matcher.avoids_forgetEntity id)))
  · rcases keeps other same with dependent | kept
    · exact Or.inr (avoids other (Or.inl dependent))
    · exact Or.inl (kept.trans (deep.keeps other))

/-! ## Passes and catalogs -/

theorem Grounded.evaluate (grounded : session.Grounded) (options : PassOptions) :
    (session.evaluate options).2.Grounded := by
  obtain ⟨pass, inferred, rfl, passed⟩ := session.evaluate_eq options
  have wider := session.matcher.extends_evaluate session.relation session.catalog options
    session.flagChanged.dirty
  rw [passed]
  exact ⟨grounded.valid, wider.named grounded.named,
    grounded.matcher.evaluate grounded.valid options session.flagChanged.dirty⟩

theorem Grounded.accept (grounded : session.Grounded) {map : MapId}
    (done : session.accept map = .ok later) : later.Grounded := by
  obtain ⟨matcher, relation, accepted, rfl⟩ := accept_eq_ok done
  obtain ⟨wider, -⟩ := Matcher.extends_of_setTentative accepted
  have settled : { session with matcher, relation }.Grounded :=
    ⟨grounded.valid, wider.named grounded.named, grounded.matcher.accept accepted⟩
  exact (settled.rest (rests_flag _ _)).resolve Propagation.symbolSegment

theorem catalog_setCatalog {catalog : Catalog} (done : session.setCatalog catalog = .ok later) :
    later.catalog = catalog := by
  obtain ⟨-, rfl⟩ | ⟨-, rfl⟩ := setCatalog_eq_ok done
  · rfl
  · rfl

theorem Grounded.setCatalog (grounded : session.Grounded) {catalog : Catalog}
    (valid : catalog.Valid) (done : session.setCatalog catalog = .ok later)
    (faithful : session.catalog.fingerprint = catalog.fingerprint →
      session.catalog.Agrees catalog) : later.Grounded := by
  obtain ⟨same, rfl⟩ | ⟨-, rfl⟩ := setCatalog_eq_ok done
  · have agrees := faithful same.symm
    exact ⟨valid, grounded.named, grounded.matcher.named, fun id map found =>
      (grounded.matcher.maps id map found).reread agrees⟩
  · exact ⟨valid, grounded.named, Matcher.grounded_of_isEmpty rfl⟩

/-- An operation leaves all correspondences grounded. -/
theorem Step.grounded (step : Step session later) (grounded : session.Grounded)
    (faithful : session.catalog.fingerprint = later.catalog.fingerprint →
      session.catalog.Agrees later.catalog) : later.Grounded := by
  cases step with
  | add done => exact grounded.add done
  | remove done => exact grounded.remove done
  | setValue done => exact grounded.setValue done
  | setConcept done => exact grounded.setConcept done
  | setParents done => exact grounded.setParents done
  | setField done => exact grounded.rest (rests_setField done)
  | @setCatalog catalog _ valid done =>
    exact grounded.setCatalog valid done (catalog_setCatalog done ▸ faithful)
  | evaluate options => exact grounded.evaluate options
  | suggest => exact (grounded.evaluate .suggest).resolve _
  | accept done => exact grounded.accept done
  | resolve name => exact grounded.resolve name

theorem Reachable.mem_catalogs {catalogs : List Catalog} (reached : Reachable catalogs session) :
    session.catalog ∈ catalogs := by
  cases reached with
  | ofRecords valid made =>
    obtain ⟨relation, -, rfl⟩ := ofRecords_eq_ok made
    exact List.mem_cons_self
  | step _ _ => exact List.mem_cons_self

/-- Over a whole session all correspondences stay grounded, as long as fingerprints tell the
catalogs apart. -/
theorem Reachable.grounded {catalogs : List Catalog} (reached : Reachable catalogs session)
    (faithful : Catalog.Faithful catalogs) : session.Grounded := by
  induction reached with
  | ofRecords valid made => exact grounded_ofRecords valid made
  | @step catalogs before after reached step ih =>
    refine step.grounded (ih fun first inFirst second inSecond => ?_) ?_
    · exact faithful first (List.mem_cons_of_mem _ inFirst) second (List.mem_cons_of_mem _ inSecond)
    · exact faithful _ (List.mem_cons_of_mem _ reached.mem_catalogs) _ List.mem_cons_self

/-- Every correspondence of a session is one to one, and a node that one of its deep predicates
needs is mapped to an entity that is there and accepted, whose concept is an instance of the
concept of the node and whose value lies in its constraint. What the node links to is mapped to what
the entity links to on the same side or, if the concept of the entity is symmetric, on the other
one, for both links alike. -/
theorem Reachable.correspondences_sound {catalogs : List Catalog}
    (reached : Reachable catalogs session) (faithful : Catalog.Faithful catalogs) {id : MapId}
    {map : Correspondence} (found : session.matcher.get? id = some map) :
    (∀ (entity : EntityId) (node : LawNodeId),
      map.nodeOf[entity]? = some node ↔ map.entityOf[node]? = some entity) ∧
    ∀ deep ∈ map.deepPredicates, ∀ nodeId, session.catalog.Needs map.law deep nodeId →
      ∃ node place entity swapped, session.catalog.lawNode? map.law nodeId = some node ∧
        map.entityOf[nodeId]? = some place ∧ session.relation.get? place = some entity ∧
        entity.isTentative = false ∧
        session.catalog.instanceOf entity.concept node.concept = true ∧
        node.value.includes entity.value = true ∧
        (swapped = true → ∃ concept, session.catalog.concept? entity.concept = some concept ∧
          concept.symmetric = true) ∧
        ∀ side parent, node.parent side = some parent → ∃ above,
          entity.parent (side.oriented swapped) = some above ∧
          map.entityOf[parent]? = some above := by
  have grounded := (reached.grounded faithful).matcher.maps id map found
  refine ⟨grounded.paired, fun deep built nodeId needs => ?_⟩
  obtain ⟨node, place, entity, swapped, named, holds, present, accepted, allowed, linked⟩ :=
    grounded.fits deep built nodeId needs
  unfold LawNode.accepts at accepted
  simp only [Bool.and_eq_true, Bool.not_eq_true'] at accepted
  obtain ⟨⟨⟨firm, -⟩, instanceOf⟩, included⟩ := accepted
  refine ⟨node, place, entity, swapped, named, holds, present, firm, instanceOf, included, ?_,
    linked⟩
  intro exchanged
  rw [exchanged] at allowed
  exact session.catalog.exchanged_of_mem_orientations allowed

/-! ## A vector bound to a point -/

/-- Two concepts, and a law with a node for a vector and one for the point at its head. -/
def boundVector : Definition where
  concepts := [⟨⟨1⟩, "point", [], ∅, none, false⟩, ⟨⟨2⟩, "vector", [], ∅, none, false⟩]
  laws := [⟨⟨100⟩, "bound vector",
    [⟨⟨1001⟩, ⟨1⟩, none, none, .empty, none, none⟩,
      ⟨⟨1002⟩, ⟨2⟩, some ⟨1001⟩, none, .empty, none, none⟩],
    [(∅ : Std.ExtTreeSet LawNodeId).insertMany [(⟨1001⟩ : LawNodeId), ⟨1002⟩]], []⟩]

def boundCatalog : Catalog where
  definition := boundVector
  lineages := (∅ : Std.ExtTreeMap ConceptId (List ConceptId)).insertMany
    [((⟨1⟩ : ConceptId), [(⟨1⟩ : ConceptId)]), (⟨2⟩, [⟨2⟩])]
  fingerprint := Fingerprint.ofContent Fingerprint.catalogDomain boundVector.toCbor

theorem valid_boundCatalog : boundCatalog.Valid := by
  have concepts : boundVector.checkConcepts = .ok () := rfl
  have lineages : boundVector.lineages = .ok boundCatalog.lineages := rfl
  have laws : boundVector.checkLaws [] [] boundVector.laws = .ok () := rfl
  refine ⟨boundVector, ?_⟩
  unfold Catalog.ofDefinition
  rw [concepts, lineages, laws]
  rfl

/-- A point, and a vector at it. -/
def boundRecords : List EntityRecord :=
  [⟨⟨1⟩, ⟨1⟩, none, none, .empty, none⟩, ⟨⟨2⟩, ⟨2⟩, some ⟨1⟩, none, .empty, none⟩]

def unmatched : Session :=
  ofRelation boundCatalog .standard ((Relation.ofRecords boundRecords boundCatalog).toOption.getD
    .empty)

def matched : Session := (unmatched.evaluate .standard).2

/-- The correspondence that was seeded at the vector maps the other node to the point. -/
theorem correspondences_sound_matched : ∃ map, matched.matcher.get? ⟨0⟩ = some map ∧
    map.entityOf[(⟨1002⟩ : LawNodeId)]? = some ⟨2⟩ ∧
    ∃ place entity, map.entityOf[(⟨1001⟩ : LawNodeId)]? = some place ∧
      matched.relation.get? place = some entity ∧ entity.isTentative = false ∧
      matched.catalog.instanceOf entity.concept ⟨1⟩ = true := by
  have made : ofRecords boundCatalog .standard boundRecords = .ok unmatched := rfl
  have start : Reachable [boundCatalog] unmatched := .ofRecords valid_boundCatalog made
  have reached : Reachable [boundCatalog, boundCatalog] matched := start.step (.evaluate .standard)
  have faithful : Catalog.Faithful [boundCatalog, boundCatalog] := by
    intro first inFirst second inSecond _
    obtain rfl : first = boundCatalog := by simpa using inFirst
    obtain rfl : second = boundCatalog := by simpa using inSecond
    exact Catalog.agrees_refl _
  have seeded : (matched.matcher.get? ⟨0⟩).map (fun map => (map.law,
      map.deepPredicates.contains ⟨1002⟩, map.entityOf[(⟨1002⟩ : LawNodeId)]?)) =
        some (⟨100⟩, true, some ⟨2⟩) := by decide +kernel
  obtain ⟨map, found, facts⟩ := Option.map_eq_some_iff.1 seeded
  obtain ⟨law, facts⟩ := Prod.mk.inj facts
  obtain ⟨built, holds⟩ := Prod.mk.inj facts
  have needs : matched.catalog.Needs map.law ⟨1002⟩ ⟨1001⟩ := by
    have vector : matched.catalog.lawNode? map.law ⟨1002⟩ =
        some ⟨⟨1002⟩, ⟨2⟩, some ⟨1001⟩, none, .empty, none, none⟩ := by
      rw [law]
      rfl
    exact .above vector (rfl : LawNode.parent _ .head = _)
  obtain ⟨-, fits⟩ := reached.correspondences_sound faithful found
  obtain ⟨node, place, entity, -, named, mapped, present, accepted, instanceOf, -⟩ :=
    fits ⟨1002⟩ built ⟨1001⟩ needs
  have point : matched.catalog.lawNode? map.law ⟨1001⟩ =
      some ⟨⟨1001⟩, ⟨1⟩, none, none, .empty, none, none⟩ := by
    rw [law]
    rfl
  obtain rfl := Option.some.inj (named.symm.trans point)
  exact ⟨map, found, holds, place, entity, mapped, present, accepted, instanceOf⟩

end Session

end ConceptLaws
