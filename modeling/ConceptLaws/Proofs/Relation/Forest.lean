import ConceptLaws.Proofs.Relation.Ordering

/-! Relations stay forests.
Entities are inserted, removed, relinked and changed in place. A call that fails keeps what it has
done until then, so that it leaves the relation alone is something to prove. Whatever is called, a
relation made from records stays a forest of uniquely named entities, and links are refused exactly
if they would close a cycle. -/

namespace ConceptLaws

namespace Relation

/-! ## Relations made from records -/

theorem links_recomputeDeep {relation : Relation} {child parent : EntityId} :
    relation.recomputeDeep.Links child parent ↔ relation.Links child parent := by
  unfold Links
  rw [get?_recomputeDeep]
  cases relation.get? child with
  | none => simp
  | some entity => simp [Entity.parents]

theorem contains_recomputeDeep (relation : Relation) (id : EntityId) :
    relation.recomputeDeep.contains id = relation.contains id := by
  rw [Bool.eq_iff_iff, contains_iff, contains_iff, get?_recomputeDeep]
  cases relation.get? id with
  | none => simp
  | some entity => simp

theorem checkLinks_eq_ok {relation : Relation} {entity : Entity} :
    relation.checkLinks entity = .ok () ↔ ∀ parent ∈ entity.parents, relation.contains parent := by
  unfold checkLinks
  split
  · rename_i parent found
    have missing := List.find?_some found
    refine ⟨fun impossible => by simp at impossible, fun all => ?_⟩
    simp [all parent (List.mem_of_find?_eq_some found)] at missing
  · rename_i found
    refine ⟨fun _ parent member => ?_, fun _ => rfl⟩
    simpa using List.find?_eq_none.1 found parent member

/-- Only links and identifiers matter. -/
theorem Forest.of_fewer {relation later : Relation} (forest : relation.Forest)
    (named : later.Named)
    (fewer : ∀ {child parent : EntityId}, later.Links child parent → relation.Links child parent)
    (grounded : ∀ {child parent : EntityId}, later.Links child parent → relation.contains parent →
      later.contains parent) : later.Forest where
  named := named
  grounded link := grounded link (forest.grounded (fewer link))
  acyclic id cycle := forest.acyclic id (cycle.mono fewer)

theorem Forest.recomputeDeep {relation : Relation} (forest : relation.Forest) :
    relation.recomputeDeep.Forest :=
  forest.of_fewer (relation.extends_recomputeDeep.named forest.named) links_recomputeDeep.1
    fun _ present => (relation.contains_recomputeDeep _).trans present

/-- The checks of a new relation are those of a forest. -/
theorem forest_ofRecords {records : List EntityRecord} {catalog : Catalog} {relation : Relation}
    (built : ofRecords records catalog = .ok relation) : relation.Forest := by
  have named := named_ofRecords built
  unfold ofRecords at built
  obtain ⟨collected, -, built⟩ := bind_eq_ok.1 built
  obtain ⟨⟨⟩, linked, built⟩ := bind_eq_ok.1 built
  obtain ⟨⟨⟩, climbs, built⟩ := bind_eq_ok.1 built
  obtain rfl := Except.ok.inj built
  have collectedNamed : collected.Named := by
    intro id entity found
    have after := collected.get?_recomputeDeep id
    rw [found, Option.map_some] at after
    exact (named id _ after :)
  have grounded {child parent : EntityId} (link : collected.Links child parent) :
      collected.contains parent := by
    obtain ⟨entity, found, member⟩ := link
    have checked := forM_eq_ok.1 linked entity (mem_values.2 ⟨child, found⟩)
    exact checkLinks_eq_ok.1 checked parent member
  exact Forest.recomputeDeep
    ⟨collectedNamed, grounded, (checkCycles_iff collectedNamed grounded).1 climbs⟩

/-! ## Calls in place -/

/-- A call on a relation; what it has done before it fails stays done. -/
abbrev Call := EStateM RelationFault Relation

def insertInPlace (entity : Entity) (catalog : Catalog) : Call EntityId := do
  if (← get).contains entity.id then throw (.duplicateEntity entity.id)
  if (catalog.concept? entity.concept).isNone then
    throw (.unknownConcept entity.id entity.concept)
  entity.parents.forM fun parent => do ofExcept ((← get).checkNewLink entity parent)
  modify (·.reserve entity.id)
  modify fun relation =>
    { relation with entities := relation.entities.insert entity.id entity }
  return entity.id

/-- The entity is taken out before it is known whether it was there. -/
def removeInPlace (id : EntityId) : Call Entity := do
  let found := (← get).get? id
  modify fun relation => { relation with entities := relation.entities.erase id }
  match found with
  | none => throw (.unknownEntity id)
  | some entity =>
    modify fun relation =>
      { relation with entities := relation.entities.map fun _ other => other.unlink id }
    return entity

def setParentsInPlace (id : EntityId) (head reference : Option EntityId) : Call Unit := do
  if !(← get).contains id then throw (.unknownEntity id)
  (head.toList ++ reference.toList).forM fun parent => do ofExcept ((← get).checkRelink id parent)
  modify (·.update id fun entity => { entity with head := head })
  modify (·.update id fun entity => { entity with reference := reference })

/-- Changes an entity that has to be there. -/
def changeInPlace (id : EntityId) (change : Entity → Entity) : Call Unit := do
  match (← get).get? id with
  | none => throw (.unknownEntity id)
  | some _ => modify (·.update id change)

def setValueInPlace (id : EntityId) (value : Payload) : Call Unit :=
  changeInPlace id fun entity => { entity with value := value }

def setConceptInPlace (id : EntityId) (concept : ConceptId) (catalog : Catalog) : Call Unit := do
  if (catalog.concept? concept).isNone then throw (.unknownConcept id concept)
  changeInPlace id fun entity => { entity with concept := concept }

def freshIdInPlace : Call EntityId := do
  let id := (← get).nextId
  modify fun relation => { relation with nextId := relation.nextId.next }
  return id

/-- The result of a call that leaves the relation alone when it fails. -/
def settled {α : Type} (relation : Relation) :
    Except RelationFault (α × Relation) → EStateM.Result RelationFault Relation α
  | .ok (answer, later) => .ok answer later
  | .error fault => .error fault relation

theorem run_ofExcept {α : Type} (result : Except RelationFault α) (relation : Relation) :
    EStateM.run (ofExcept result : Call α) relation = match result with
      | .ok answer => .ok answer relation
      | .error fault => .error fault relation := by
  cases result with
  | ok answer => rfl
  | error fault => rfl

/-- Checks in place only look. -/
theorem run_forM {α : Type} (check : Relation → α → Except RelationFault Unit) (list : List α)
    (relation : Relation) :
    EStateM.run (list.forM fun item => do ofExcept (check (← get) item) : Call Unit) relation =
      match list.forM (check relation) with
      | .ok () => .ok () relation
      | .error fault => .error fault relation := by
  induction list with
  | nil => rfl
  | cons first rest ih =>
    simp only [List.forM, EStateM.run_bind, EStateM.run_get, run_ofExcept]
    cases check relation first with
    | error fault => rfl
    | ok answer => exact ih

theorem run_insertInPlace (relation : Relation) (entity : Entity) (catalog : Catalog) :
    (insertInPlace entity catalog).run relation =
      relation.settled ((relation.insert entity catalog).map fun later => (entity.id, later)) := by
  unfold insertInPlace insert
  simp only [EStateM.run_bind, EStateM.run_get]
  split
  · rfl
  split
  · rfl
  simp only [EStateM.run_bind, run_forM]
  cases entity.parents.forM (relation.checkNewLink entity) with
  | error fault => rfl
  | ok answer => rfl

theorem ext_get? {relation later : Relation} (same : ∀ id, relation.get? id = later.get? id)
    (next : relation.nextId = later.nextId) : relation = later := by
  obtain ⟨entities, nextId⟩ := relation
  obtain ⟨others, nextOther⟩ := later
  obtain rfl : entities = others := Std.ExtTreeMap.ext_getElem? same
  obtain rfl : nextId = nextOther := next
  rfl

/-- Taking out what is not there changes nothing. -/
theorem erase_of_absent {relation : Relation} {id : EntityId} (absent : relation.get? id = none) :
    ({ relation with entities := relation.entities.erase id } : Relation) = relation := by
  refine ext_get? (fun query => ?_) rfl
  unfold get? at absent ⊢
  rw [Std.ExtTreeMap.getElem?_erase]
  simp only [Std.compare_eq_iff_eq]
  split
  · rename_i same
    exact (same ▸ absent).symm
  · rfl

theorem run_removeInPlace (relation : Relation) (id : EntityId) :
    (removeInPlace id).run relation = relation.settled (relation.remove id) := by
  unfold removeInPlace remove
  simp only [EStateM.run_bind, EStateM.run_get, EStateM.run_modify]
  cases found : relation.get? id with
  | none =>
    rw [erase_of_absent found]
    rfl
  | some entity => rfl

theorem run_changeInPlace (relation : Relation) (id : EntityId) (change : Entity → Entity) :
    (changeInPlace id change).run relation = relation.settled
      (if relation.contains id then .ok ((), relation.update id change)
        else .error (.unknownEntity id)) := by
  unfold changeInPlace
  simp only [EStateM.run_bind, EStateM.run_get]
  cases found : relation.get? id with
  | none =>
    have absent : ¬relation.contains id := by simp [contains_iff, found]
    rw [if_neg absent]
    rfl
  | some entity =>
    rw [if_pos (contains_iff.2 ⟨entity, found⟩)]
    rfl

theorem update_update (relation : Relation) (id : EntityId) (first second : Entity → Entity) :
    (relation.update id first).update id second =
      relation.update id fun entity => second (first entity) := by
  refine ext_get? (fun query => ?_) rfl
  rw [get?_update, get?_update, get?_update]
  split
  · rw [Option.map_map]
    rfl
  · rfl

theorem run_setParentsInPlace (relation : Relation) (id : EntityId)
    (head reference : Option EntityId) : (setParentsInPlace id head reference).run relation =
      relation.settled ((relation.setParents id head reference).map fun later => ((), later)) := by
  unfold setParentsInPlace setParents
  simp only [EStateM.run_bind, EStateM.run_get]
  split
  · rfl
  simp only [EStateM.run_bind, run_forM]
  cases (head.toList ++ reference.toList).forM (relation.checkRelink id) with
  | error fault => rfl
  | ok answer => exact congrArg (EStateM.Result.ok ()) (relation.update_update id _ _)

theorem run_setValueInPlace (relation : Relation) (id : EntityId) (value : Payload) :
    (setValueInPlace id value).run relation =
      relation.settled ((relation.setValue id value).map fun later => ((), later)) := by
  unfold setValueInPlace setValue
  rw [run_changeInPlace]
  split
  · rfl
  · rfl

theorem run_setConceptInPlace (relation : Relation) (id : EntityId) (concept : ConceptId)
    (catalog : Catalog) : (setConceptInPlace id concept catalog).run relation =
      relation.settled ((relation.setConcept id concept catalog).map fun later => ((), later)) := by
  unfold setConceptInPlace setConcept
  split
  · rfl
  change EStateM.run (changeInPlace _ _) relation = _
  rw [run_changeInPlace]
  split
  · rfl
  · rfl

/-! ## Edits -/

inductive Edit where
  | insert (entity : Entity) (catalog : Catalog)
  | remove (id : EntityId)
  | setParents (id : EntityId) (head reference : Option EntityId)
  | setValue (id : EntityId) (value : Payload)
  | setConcept (id : EntityId) (concept : ConceptId) (catalog : Catalog)
  | freshId

namespace Edit

def call : Edit → Call Unit
  | insert entity catalog => discard (insertInPlace entity catalog)
  | remove id => discard (removeInPlace id)
  | setParents id head reference => setParentsInPlace id head reference
  | setValue id value => setValueInPlace id value
  | setConcept id concept catalog => setConceptInPlace id concept catalog
  | freshId => discard freshIdInPlace

/-- The relation after an edit, whether it succeeded or failed. -/
def perform (relation : Relation) (edit : Edit) : Relation :=
  match edit.call.run relation with
  | .ok () later => later
  | .error _ later => later

/-- What an edit makes of a relation, if it succeeds. -/
def result? (relation : Relation) : Edit → Except RelationFault Relation
  | insert entity catalog => relation.insert entity catalog
  | remove id => (relation.remove id).map Prod.snd
  | setParents id head reference => relation.setParents id head reference
  | setValue id value => relation.setValue id value
  | setConcept id concept catalog => relation.setConcept id concept catalog
  | freshId => .ok relation.freshId.2

theorem run_discard {α : Type} (call : Call α) (relation : Relation) :
    (discard call).run relation = match call.run relation with
      | .ok _ later => .ok () later
      | .error fault later => .error fault later := by
  change EStateM.map _ call relation = _
  unfold EStateM.map EStateM.run
  cases call relation with
  | ok answer later => rfl
  | error fault later => rfl

theorem run_call (edit : Edit) (relation : Relation) : edit.call.run relation =
    relation.settled ((edit.result? relation).map fun later => ((), later)) := by
  cases edit with
  | insert entity catalog =>
    rw [call, run_discard, run_insertInPlace, result?]
    cases relation.insert entity catalog with
    | error fault => rfl
    | ok later => rfl
  | remove id =>
    rw [call, run_discard, run_removeInPlace, result?]
    cases relation.remove id with
    | error fault => rfl
    | ok later => rfl
  | setParents id head reference => exact relation.run_setParentsInPlace id head reference
  | setValue id value => exact relation.run_setValueInPlace id value
  | setConcept id concept catalog => exact relation.run_setConceptInPlace id concept catalog
  | freshId => rfl

end Edit

/-! ## What an edit preserves -/

theorem contains_put {relation : Relation} {entity : Entity} {query : EntityId} :
    (relation.put entity).contains query ↔ query = entity.id ∨ relation.contains query := by
  rw [contains_iff, contains_iff, get?_put]
  by_cases same : query = entity.id
  · simp [same]
  · simp [same]

theorem Forest.update {relation : Relation} (forest : relation.Forest) (id : EntityId)
    {change : Entity → Entity} (sameId : ∀ entity : Entity, (change entity).id = entity.id)
    (sameParents : ∀ entity : Entity, (change entity).parents = entity.parents) :
    (relation.update id change).Forest := by
  refine forest.of_fewer (forest.named.update id sameId) ?_ fun _ present =>
    (relation.contains_update id _ change).trans present
  rintro child parent ⟨entity, found, member⟩
  rw [get?_update] at found
  split at found
  · obtain ⟨before, held, rfl⟩ := Option.map_eq_some_iff.1 found
    exact ⟨before, held, sameParents before ▸ member⟩
  · exact ⟨entity, found, member⟩

theorem relinks_put (relation : Relation) (entity : Entity) :
    relation.Relinks (relation.put entity) entity.id entity.parents where
  here := by
    simp [Links, get?_put]
  elsewhere different := by
    simp [Links, get?_put, different]

/-- The entity links where it is asked to, whether or not it may. -/
def relinked (relation : Relation) (id : EntityId) (head reference : Option EntityId) : Relation :=
  relation.update id fun entity => { entity with head := head, reference := reference }

theorem relinks_relinked {relation : Relation} {id : EntityId} (present : relation.contains id)
    (head reference : Option EntityId) :
    relation.Relinks (relation.relinked id head reference) id
      (head.toList ++ reference.toList) where
  here := by
    obtain ⟨entity, found⟩ := contains_iff.1 present
    simp [relinked, Links, get?_update, found, Entity.parents]
  elsewhere different := by
    simp [relinked, Links, get?_update, different]

/-- What an entity leads to is an entity. -/
theorem Forest.contains_of_leads {relation : Relation} (forest : relation.Forest)
    {start target : EntityId} (leads : relation.Leads start target) : relation.contains target := by
  obtain ⟨last, -, link⟩ := Relation.TransGen.tail'_iff.1 leads
  exact forest.grounded link

theorem checkNewLink_eq_ok {relation : Relation} {entity : Entity} {parent : EntityId} :
    relation.checkNewLink entity parent = .ok () ↔
      parent ≠ entity.id ∧ relation.contains parent := by
  unfold checkNewLink
  split
  · simp [*]
  split
  · simp [*]
  · simp [*]

theorem checks_of_insert {relation later : Relation} {entity : Entity} {catalog : Catalog}
    (inserted : relation.insert entity catalog = .ok later) :
    ∀ parent ∈ entity.parents, parent ≠ entity.id ∧ relation.contains parent = true := by
  unfold Relation.insert at inserted
  split at inserted
  · simp at inserted
  split at inserted
  · simp at inserted
  obtain ⟨⟨⟩, checks, -⟩ := bind_eq_ok.1 inserted
  exact fun parent member => checkNewLink_eq_ok.1 (forM_eq_ok.1 checks parent member)

/-- Nobody links to a new entity. -/
theorem Forest.insert {relation later : Relation} (forest : relation.Forest) {entity : Entity}
    {catalog : Catalog} (inserted : relation.insert entity catalog = .ok later) :
    later.Forest := by
  have checked := checks_of_insert inserted
  obtain ⟨absent, rfl⟩ := insert_eq_ok inserted
  have relinks := relation.relinks_put entity
  refine ⟨forest.named.put entity, fun {child parent} link => ?_, fun id cycle => ?_⟩
  · by_cases here : child = entity.id
    · subst here
      exact contains_put.2 (.inr (checked parent (relinks.here.1 link)).2)
    · exact contains_put.2 (.inr (forest.grounded ((relinks.elsewhere here).1 link)))
  · obtain ⟨parent, member, back⟩ := (relinks.cycle_iff forest.acyclic).1 ⟨id, cycle⟩
    rcases back with same | leads
    · exact (checked parent member).1 same
    · obtain ⟨other, found⟩ := contains_iff.1 (forest.contains_of_leads leads)
      simp [absent] at found

theorem mem_parents_unlink {entity : Entity} {id parent : EntityId} :
    parent ∈ (entity.unlink id).parents ↔ parent ∈ entity.parents ∧ parent ≠ id := by
  have kept (link : Option EntityId) : (if link = some id then none else link) = some parent ↔
      link = some parent ∧ parent ≠ id := by
    by_cases target : link = some id
    · subst target
      simp [eq_comm]
    · rw [if_neg target]
      exact ⟨fun linked => ⟨linked, fun same => target (same ▸ linked)⟩, And.left⟩
  simp only [Entity.parents, Entity.unlink, List.mem_append, Option.mem_toList, kept, or_and_right]

theorem Forest.remove {relation later : Relation} (forest : relation.Forest) {id : EntityId}
    {removed : Entity} (done : relation.remove id = .ok (removed, later)) : later.Forest := by
  obtain ⟨-, left⟩ := remove_eq_ok done
  have fewer {child parent : EntityId} (link : later.Links child parent) :
      relation.Links child parent ∧ parent ≠ id := by
    obtain ⟨entity, found, member⟩ := link
    rw [left] at found
    split at found
    · simp at found
    obtain ⟨before, held, rfl⟩ := Option.map_eq_some_iff.1 found
    obtain ⟨linked, different⟩ := mem_parents_unlink.1 member
    exact ⟨⟨before, held, linked⟩, different⟩
  refine forest.of_fewer (forest.named.remove done) (fun link => (fewer link).1) ?_
  intro child parent link present
  obtain ⟨entity, found⟩ := contains_iff.1 present
  rw [contains_iff, left, if_neg (fewer link).2, found]
  exact ⟨_, rfl⟩

theorem checkRelink_eq {relation : Relation} (forest : relation.Forest) (id : EntityId)
    {parent : EntityId} (present : relation.contains parent) :
    (relation.checkRelink id parent = .ok () ↔ ¬(parent = id ∨ relation.Leads parent id)) ∧
      (relation.checkRelink id parent = .error (.cycle id) ↔
        parent = id ∨ relation.Leads parent id) := by
  have known : (parent = id || (relation.ancestors parent).contains id) = true ↔
      parent = id ∨ relation.Leads parent id := by
    rw [Bool.or_eq_true, decide_eq_true_eq, ← Std.ExtTreeSet.mem_iff_contains, forest.mem_ancestors]
  unfold checkRelink
  rw [if_neg (by simp [present])]
  by_cases back : parent = id ∨ relation.Leads parent id
  · rw [if_pos (known.2 back)]
    simp [back]
  · rw [if_neg (mt known.1 back)]
    simp [back]

theorem Forest.setParents {relation later : Relation} (forest : relation.Forest) {id : EntityId}
    {head reference : Option EntityId}
    (relinked : relation.setParents id head reference = .ok later) : later.Forest := by
  obtain ⟨present, checks, rfl⟩ := setParents_eq_ok relinked
  have checked (parent : EntityId) (member : parent ∈ head.toList ++ reference.toList) :
      relation.contains parent ∧ ¬(parent = id ∨ relation.Leads parent id) := by
    have passed := checks parent member
    have linked : relation.contains parent := by
      unfold checkRelink at passed
      split at passed
      · simp at passed
      · rename_i known
        simpa using known
    exact ⟨linked, (checkRelink_eq forest id linked).1.1 passed⟩
  have relinks := relinks_relinked present head reference
  refine ⟨forest.named.update id fun _ => rfl, fun {child parent} link => ?_, fun start cycle => ?_⟩
  · rw [contains_update]
    by_cases here : child = id
    · subst here
      exact (checked parent (relinks.here.1 link)).1
    · exact forest.grounded ((relinks.elsewhere here).1 link)
  · obtain ⟨parent, member, back⟩ := (relinks.cycle_iff forest.acyclic).1 ⟨start, cycle⟩
    exact (checked parent member).2 back

/-- An edit that succeeds leaves a forest. -/
theorem Forest.result? {relation later : Relation} (forest : relation.Forest) {edit : Edit}
    (done : edit.result? relation = .ok later) : later.Forest := by
  cases edit with
  | insert entity catalog => exact forest.insert done
  | remove id =>
    simp only [Edit.result?] at done
    cases removed : relation.remove id with
    | error fault => simp [removed, Except.map] at done
    | ok pair =>
      rw [removed] at done
      obtain rfl := Except.ok.inj done
      exact forest.remove removed
  | setParents id head reference => exact forest.setParents done
  | setValue id value =>
    simp only [Edit.result?, setValue] at done
    split at done
    · obtain rfl := Except.ok.inj done
      exact forest.update id (fun _ => rfl) fun _ => rfl
    · simp at done
  | setConcept id concept catalog =>
    simp only [Edit.result?, setConcept] at done
    split at done
    · simp at done
    split at done
    · obtain rfl := Except.ok.inj done
      exact forest.update id (fun _ => rfl) fun _ => rfl
    · simp at done
  | freshId =>
    obtain rfl := Except.ok.inj done
    exact forest.of_fewer forest.named id fun _ => id

/-- An edit that fails leaves the relation as it was. -/
theorem Edit.perform_cases (edit : Edit) (relation : Relation) :
    (edit.call.run relation = .ok () (edit.perform relation) ∧
      edit.result? relation = .ok (edit.perform relation)) ∨
    (∃ fault, edit.call.run relation = .error fault relation) ∧
      edit.perform relation = relation := by
  have run := edit.run_call relation
  unfold perform
  cases result : edit.result? relation with
  | error fault =>
    rw [result] at run
    rw [run]
    exact .inr ⟨⟨fault, rfl⟩, rfl⟩
  | ok later =>
    rw [result] at run
    rw [run]
    exact .inl ⟨rfl, rfl⟩

theorem Forest.perform {relation : Relation} (forest : relation.Forest) (edit : Edit) :
    (edit.perform relation).Forest := by
  rcases edit.perform_cases relation with ⟨-, done⟩ | ⟨-, same⟩
  · exact forest.result? done
  · exact same.symm ▸ forest

def performAll (relation : Relation) (edits : List Edit) : Relation :=
  edits.foldl (fun relation edit => edit.perform relation) relation

theorem Forest.performAll {relation : Relation} (forest : relation.Forest) (edits : List Edit) :
    (relation.performAll edits).Forest := by
  induction edits generalizing relation with
  | nil => exact forest
  | cons first rest ih => exact ih (forest.perform first)

/-- A traversal fails with a fault if some step fails with it and none with another. -/
theorem forM_eq_error {α ε : Type} {step : α → Except ε Unit} {list : List α} {fault : ε}
    (either : ∀ item ∈ list, step item = .ok () ∨ step item = .error fault) :
    list.forM step = .error fault ↔ ∃ item ∈ list, step item = .error fault := by
  induction list with
  | nil => simp [List.forM, pure, Except.pure]
  | cons first rest ih =>
    obtain ⟨here, later⟩ := List.forall_mem_cons.1 either
    change (step first >>= fun _ => rest.forM step) = _ ↔ _
    rcases here with passed | failed
    · rw [passed]
      change rest.forM step = _ ↔ _
      rw [ih later]
      simp [passed]
    · rw [failed]
      simp [failed, bind, Except.bind]

theorem forM_cases {α ε : Type} {step : α → Except ε Unit} {list : List α} {fault : ε}
    (either : ∀ item ∈ list, step item = .ok () ∨ step item = .error fault) :
    list.forM step = .ok () ∨ list.forM step = .error fault := by
  rw [forM_eq_error either, forM_eq_ok]
  by_contra neither
  obtain ⟨passes, fails⟩ := not_or.1 neither
  exact passes fun item member =>
    (either item member).resolve_right fun failed => fails ⟨item, member, failed⟩

/-- Links to existing entities are refused exactly if they close a cycle. -/
theorem Forest.setParents_eq {relation : Relation} (forest : relation.Forest) {id : EntityId}
    {head reference : Option EntityId} (present : relation.contains id)
    (parents : ∀ parent ∈ head.toList ++ reference.toList, relation.contains parent) :
    (relation.setParents id head reference = .error (.cycle id) ↔
      ∃ start, (relation.relinked id head reference).Leads start start) ∧
    (relation.setParents id head reference = .ok (relation.relinked id head reference) ↔
      ¬∃ start, (relation.relinked id head reference).Leads start start) := by
  have checks (parent : EntityId) (member : parent ∈ head.toList ++ reference.toList) :=
    checkRelink_eq forest id (parents parent member)
  have either (parent : EntityId) (member : parent ∈ head.toList ++ reference.toList) :
      relation.checkRelink id parent = .ok () ∨
        relation.checkRelink id parent = .error (.cycle id) := by
    rw [(checks parent member).1, (checks parent member).2]
    exact (em _).symm
  have whole : relation.setParents id head reference =
      ((head.toList ++ reference.toList).forM (relation.checkRelink id) >>= fun _ =>
        .ok (relation.relinked id head reference)) := by
    unfold Relation.setParents
    rw [if_neg (by simp [present])]
    rfl
  have closes : (head.toList ++ reference.toList).forM (relation.checkRelink id) =
      .error (.cycle id) ↔ ∃ start, (relation.relinked id head reference).Leads start start := by
    rw [(relinks_relinked present head reference).cycle_iff forest.acyclic, forM_eq_error either]
    exact exists_congr fun parent => and_congr_right fun member => (checks parent member).2
  rw [← closes, whole]
  rcases forM_cases either with passed | failed
  · rw [passed]
    simp [bind, Except.bind]
  · rw [failed]
    simp [bind, Except.bind]

/-! ## Runs of edits -/

/-- What holds of a relation whatever is called on it. -/
structure WellKept (relation : Relation) : Prop where
  /-- No two entities have the same identifier. -/
  unique : (relation.toList.map Entity.id).Nodup
  /-- Links name entities of the relation. -/
  grounded : ∀ child parent : EntityId, relation.Links child parent → relation.contains parent
  /-- Following links never returns to the start. -/
  acyclic : ∀ id : EntityId, ¬relation.Leads id id
  /-- New links from and to existing entities are refused exactly if they would close a cycle. -/
  relinks : ∀ (id : EntityId) (head reference : Option EntityId), relation.contains id →
    (∀ parent ∈ head.toList ++ reference.toList, relation.contains parent) →
    ((setParentsInPlace id head reference).run relation = .error (.cycle id) relation ↔
      ∃ start, (relation.relinked id head reference).Leads start start) ∧
    ((setParentsInPlace id head reference).run relation =
        .ok () (relation.relinked id head reference) ↔
      ¬∃ start, (relation.relinked id head reference).Leads start start)
  /-- A call that fails leaves the relation exactly as it was. -/
  kept : ∀ (edit : Edit) (fault : RelationFault) (after : Relation),
    edit.call.run relation = .error fault after → after = relation

theorem Forest.wellKept {relation : Relation} (forest : relation.Forest) : relation.WellKept where
  unique := forest.named.map_id_toList ▸ relation.nodup_ids
  grounded _ _ := forest.grounded
  acyclic := forest.acyclic
  relinks id head reference present parents := by
    obtain ⟨cycle, fine⟩ := forest.setParents_eq present parents
    rw [run_setParentsInPlace]
    refine ⟨Iff.trans ?_ cycle, Iff.trans ?_ fine⟩
    · cases relation.setParents id head reference with
      | error fault => simp [settled, Except.map]
      | ok later => simp [settled, Except.map]
    · cases relation.setParents id head reference with
      | error fault => simp [settled, Except.map]
      | ok later => simp [settled, Except.map]
  kept edit fault after failed := by
    rcases edit.perform_cases relation with ⟨done, -⟩ | ⟨⟨other, refused⟩, -⟩
    · simp [done] at failed
    · rw [refused] at failed
      exact (EStateM.Result.error.inj failed).2.symm

/-- A relation made from records stays well kept, whatever is called on it. -/
theorem wellKept_performAll {records : List EntityRecord} {catalog : Catalog} {relation : Relation}
    (built : ofRecords records catalog = .ok relation) (edits : List Edit) :
    (relation.performAll edits).WellKept :=
  ((forest_ofRecords built).performAll edits).wellKept

def pointDefinition : Definition where
  concepts := [⟨⟨1⟩, "point", [], ∅, none, false⟩]
  laws := []

def pointCatalog : Catalog where
  definition := pointDefinition
  lineages := (∅ : Std.ExtTreeMap ConceptId (List ConceptId)).insert ⟨1⟩ [⟨1⟩]
  fingerprint := Fingerprint.ofContent Fingerprint.catalogDomain pointDefinition.toCbor

/-- The second point links to the first, the third to both. -/
def threePoints : List EntityRecord :=
  [⟨⟨1⟩, ⟨1⟩, none, none, .empty, none⟩, ⟨⟨2⟩, ⟨1⟩, some ⟨1⟩, none, .empty, none⟩,
    ⟨⟨3⟩, ⟨1⟩, some ⟨2⟩, some ⟨1⟩, .empty, none⟩]

def points : Relation := (ofRecords threePoints pointCatalog).toOption.getD .empty

/-- The first point may not be linked to the third; once the third links to nothing, it may. -/
theorem wellKept_points :
    ofRecords threePoints pointCatalog = .ok points ∧
      (setParentsInPlace ⟨1⟩ (some ⟨3⟩) none).run points = .error (.cycle ⟨1⟩) points ∧
      (points.performAll [.setParents ⟨1⟩ (some ⟨3⟩) none, .remove ⟨2⟩, .setParents ⟨3⟩ none none,
        .setParents ⟨1⟩ (some ⟨3⟩) none]).WellKept := by
  have built : ofRecords threePoints pointCatalog = .ok points := rfl
  exact ⟨built, rfl, wellKept_performAll built _⟩

end Relation

end ConceptLaws
