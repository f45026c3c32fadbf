import ConceptLaws.Proofs.Correspondence.Accounts
import ConceptLaws.Proofs.Session.Grounding
import Mathlib.Data.List.Induction
import Mathlib.Data.List.Nodup

/-! Suggestions that are accepted.
Accepting a suggestion accepts the entities that note its identifier. These are the entities that
its append created or reused, as long as no correspondence before it bore the identifier and left a
claim on an entity that is still tentative. -/

namespace ConceptLaws

open PassEvent

/-- Whether an event is a claim on an entity. -/
def PassEvent.concerns (id : EntityId) : PassEvent → Bool
  | made _ => false
  | claimed _ entity => entity == id

theorem PassEvent.filter_note (map : MapId) (id : EntityId) (entities : List EntityId)
    (event : PassEvent) : (note map entities event).filter (· != id) =
      if event.concerns id then entities.filter (· != id)
      else note map (entities.filter (· != id)) event := by
  cases event with
  | made other =>
    simp only [concerns, Bool.false_eq_true, if_false, note]
    split
    · rfl
    · rfl
  | claimed other entity =>
    simp only [concerns, beq_iff_eq, note]
    by_cases gone : entity = id
    · rw [if_pos gone]
      split
      · simp [gone]
      · rfl
    · rw [if_neg gone]
      split
      · simp [gone]
      · rfl

theorem PassEvent.claimsOf_filter (map : MapId) (id : EntityId) (events : List PassEvent) :
    claimsOf map (events.filter (!·.concerns id)) = (claimsOf map events).filter (· != id) := by
  induction events using List.reverseRecOn with
  | nil => rfl
  | append_singleton earlier last ih =>
    rw [List.filter_append, claimsOf_concat, filter_note, ← ih]
    cases concerned : last.concerns id with
    | true => simp [concerned]
    | false => simp [concerned, claimsOf_concat]

theorem PassEvent.madeBy_filter (id : EntityId) (events : List PassEvent) :
    madeBy (events.filter (!·.concerns id)) = madeBy events := by
  unfold madeBy
  rw [List.filterMap_filter]
  refine List.filterMap_congr fun event _ => ?_
  cases event with
  | made map => rfl
  | claimed map entity => simp [made?]

theorem PassEvent.claimed_of_mem_claimsOf {map : MapId} {id : EntityId} {events : List PassEvent}
    (member : id ∈ claimsOf map events) : claimed map id ∈ events := by
  induction events using List.reverseRecOn with
  | nil => cases member
  | append_singleton earlier last ih =>
    rw [claimsOf_concat] at member
    cases last with
    | made other =>
      dsimp only [note] at member
      split at member
      · cases member
      · exact List.mem_append_left _ (ih member)
    | claimed other entity =>
      dsimp only [note] at member
      split at member
      · rename_i same
        rcases List.mem_append.1 member with old | new
        · exact List.mem_append_left _ (ih old)
        · rw [List.mem_singleton.1 new, ← same]
          exact List.mem_append_right _ (List.mem_singleton.2 rfl)
      · exact List.mem_append_left _ (ih member)

namespace Session

/-- Anything that is done with a session. -/
inductive Operation where
  | add (record : EntityRecord)
  | remove (id : EntityId)
  | setValue (id : EntityId) (value : Payload)
  | setConcept (id : EntityId) (concept : ConceptId)
  | setParents (id : EntityId) (head reference : Option EntityId)
  | setField (id : EntityId) (path : Path) (value : Datum)
  | setCatalog (catalog : Catalog)
  | evaluate (options : PassOptions)
  | suggest
  | accept (map : MapId)
  | resolve (name : String)

/-- What comes out of an operation, or the session as it was if the operation failed. -/
def orKeep (session : Session) : Except SessionFault Session → Session
  | .error _ => session
  | .ok later => later

def perform (session : Session) : Operation → Session
  | .add record => session.orKeep (session.add record)
  | .remove id => session.orKeep ((session.remove id).map Prod.snd)
  | .setValue id value => session.orKeep (session.setValue id value)
  | .setConcept id concept => session.orKeep (session.setConcept id concept)
  | .setParents id head reference => session.orKeep (session.setParents id head reference)
  | .setField id path value => session.orKeep ((session.setField id path value).map Prod.snd)
  | .setCatalog catalog => session.orKeep (session.setCatalog catalog)
  | .evaluate options => (session.evaluate options).2
  | .suggest => session.suggest
  | .accept map => session.orKeep (session.accept map)
  | .resolve name => (session.resolve name).2

def evaluateEvents (session : Session) (options : PassOptions) : List PassEvent :=
  session.matcher.evaluateEvents session.relation session.catalog options session.flagChanged.dirty

/-- The events after an operation. Passes add theirs; the claims on a removed entity are gone with
it. -/
def tell (session : Session) (events : List PassEvent) : Operation → List PassEvent
  | .evaluate options => events ++ session.evaluateEvents options
  | .suggest => events ++ session.evaluateEvents .suggest
  | .remove id => events.filter (!·.concerns id)
  | _ => events

/-- Operations one after the other, with the events so far. -/
def record (start : List PassEvent × Session) (operations : List Operation) :
    List PassEvent × Session :=
  operations.foldl
    (fun (events, session) operation => (session.tell events operation, session.perform operation))
    start

end Session

/-! ## What edits leave of the accounts -/

namespace Accounted

variable {events : List PassEvent} {matcher : Matcher} {relation : Relation}

theorem forgetEntity (accounted : Accounted events matcher relation) (id : EntityId) :
    Accounted events (matcher.forgetEntity id) relation := by
  refine accounted.fewer fun query map found => ?_
  rw [Matcher.get?_forgetEntity accounted.named] at found
  exact ⟨map, (Option.filter_eq_some_iff.1 found).1, rfl⟩

theorem foldl_forgetEntity (ids : List EntityId) (accounted : Accounted events matcher relation) :
    Accounted events (ids.foldl Matcher.forgetEntity matcher) relation := by
  induction ids generalizing matcher with
  | nil => exact accounted
  | cons first rest ih => exact ih (accounted.forgetEntity first)

/-- One entity is edited, but not in where it comes from. -/
theorem amend (accounted : Accounted events matcher relation) (id : EntityId)
    {change : Entity → Entity} (same : ∀ entity : Entity, entity.SameOrigin (change entity)) :
    Accounted events matcher (relation.update id change) := by
  have edited (query : EntityId) : (relation.update id change).get? query =
      (relation.get? query).map fun entity => if query = id then change entity else entity := by
    rw [Relation.get?_update]
    split
    · rfl
    · simp
  refine accounted.edit edited fun query entity => ?_
  split
  · exact same entity
  · exact ⟨rfl, rfl, rfl, fun tentative => tentative⟩

/-- An entity of the user is put beside the others. -/
theorem put (accounted : Accounted events matcher relation) {entity : Entity}
    (absent : relation.get? entity.id = none) (new : entity.provenance = .none) :
    Accounted events matcher (relation.put entity) := by
  refine ⟨accounted.named, accounted.known, accounted.entities.put entity,
    fun map claimedEntity member => ?_, accounted.latest, fun id other found tentative => ?_,
    fun id other found appended => ?_⟩
  · obtain ⟨known, present⟩ := accounted.told map claimedEntity member
    obtain ⟨before, held⟩ := Relation.contains_iff.1 present
    have different : claimedEntity ≠ entity.id := by
      rintro rfl
      simp [absent] at held
    refine ⟨known, Relation.contains_iff.2 ⟨before, ?_⟩⟩
    rw [Relation.get?_put, if_neg different, held]
  · rw [Relation.get?_put] at found
    split at found
    · obtain rfl := Option.some.inj found
      unfold Entity.isTentative at tentative
      rw [new] at tentative
      cases tentative
    · exact accounted.appended id other found tentative
  · rw [Relation.get?_put] at found
    split at found
    · obtain rfl := Option.some.inj found
      rw [new] at appended
      cases appended
    · exact accounted.notes id other found appended

/-- Nothing is claimed that is not there. -/
theorem filter_eq_self (accounted : Accounted events matcher relation) {id : EntityId}
    (absent : relation.get? id = none) : events.filter (!·.concerns id) = events := by
  refine List.filter_eq_self.2 fun event member => ?_
  cases event with
  | made map => rfl
  | claimed map entity =>
    obtain ⟨before, held⟩ := Relation.contains_iff.1 (accounted.told map entity member).2
    have different : entity ≠ id := by
      rintro rfl
      simp [absent] at held
    simpa [concerns] using different

/-- A removed entity takes the claims on it with it. -/
theorem remove (accounted : Accounted events matcher relation) {id : EntityId} {removed : Entity}
    {later : Relation} (done : relation.remove id = .ok (removed, later)) :
    Accounted (events.filter (!·.concerns id)) matcher later := by
  obtain ⟨-, left⟩ := Relation.remove_eq_ok done
  have origin {query : EntityId} {after : Entity} (found : later.get? query = some after) :
      query ≠ id ∧ ∃ entity, relation.get? query = some entity ∧ entity.SameOrigin after := by
    rw [left] at found
    split at found
    · cases found
    · rename_i different
      obtain ⟨entity, held, rfl⟩ := Option.map_eq_some_iff.1 found
      exact ⟨different, entity, held, rfl, rfl, rfl, fun tentative => tentative⟩
  have kept {map : MapId} : made map ∈ events → made map ∈ events.filter (!·.concerns id) :=
    fun member => List.mem_filter.2 ⟨member, rfl⟩
  refine ⟨accounted.named, fun query map found => kept (accounted.known query map found),
    accounted.entities.remove done, fun map entity member => ?_,
    fun distinct map entity member => ?_, fun query after found tentative => ?_,
    fun query after found appended map => ?_⟩
  · obtain ⟨before, other⟩ := List.mem_filter.1 member
    have different : entity ≠ id := by simpa [concerns] using other
    obtain ⟨known, present⟩ := accounted.told map entity before
    obtain ⟨record, held⟩ := Relation.contains_iff.1 present
    refine ⟨kept known, Relation.contains_iff.2 ⟨record.unlink id, ?_⟩⟩
    rw [left, if_neg different, held]
    rfl
  · obtain ⟨before, other⟩ := List.mem_filter.1 member
    rw [claimsOf_filter]
    have different : entity ≠ id := by simpa [concerns] using other
    have claims := accounted.latest (madeBy_filter id events ▸ distinct) map entity before
    exact List.mem_filter.2 ⟨claims, bne_iff_ne.2 different⟩
  · obtain ⟨-, entity, held, alike⟩ := origin found
    rw [alike.appended]
    exact accounted.appended query entity held (alike.tentative tentative)
  · obtain ⟨different, entity, held, alike⟩ := origin found
    rw [alike.appended] at appended
    rw [alike.fromMaps, accounted.notes query entity held appended]
    simp [concerns, different]

end Accounted

/-! ## Accepting -/

/-- The entity after a correspondence was accepted that it perhaps notes. -/
def Entity.settled (map : MapId) (entity : Entity) : Entity :=
  { entity with provenance := { entity.provenance with
      tentative := entity.isTentative &&
        !(entity.provenance.appended && entity.provenance.fromMaps.contains map) } }

theorem Entity.sameOrigin_settled (map : MapId) (entity : Entity) :
    entity.SameOrigin (entity.settled map) :=
  ⟨rfl, rfl, rfl, fun tentative => (Bool.and_eq_true_iff.1 tentative).1⟩

def Relation.settle (relation : Relation) (map : MapId) : Relation :=
  { relation with entities := relation.entities.map fun _ => Entity.settled map }

theorem Relation.get?_settle (relation : Relation) (map : MapId) (id : EntityId) :
    (relation.settle map).get? id = (relation.get? id).map (Entity.settled map) :=
  Std.ExtTreeMap.getElem?_map

/-- An accepted correspondence settles all entities that note it. -/
theorem Matcher.relation_of_setTentative {matcher later : Matcher} {relation after : Relation}
    {map : MapId} (accepted : matcher.setTentative relation map false = .ok (later, after)) :
    after = (relation.settle map).recomputeDeep := by
  unfold setTentative at accepted
  split at accepted
  · simp at accepted
  rename_i correspondence found
  split at accepted
  · simp at accepted
  obtain ⟨-, rfl⟩ := Prod.mk.inj (Except.ok.inj accepted)
  unfold Relation.settle
  congr 3
  funext _ entity
  dsimp only
  unfold Entity.settled
  split
  · rename_i noted
    have firm : (matcher.update map fun map => { map with tentative := false }).allTentative
        entity = false := by
      refine List.all_eq_false.2 ⟨map, ?_, ?_⟩
      · exact Std.ExtTreeSet.mem_toList.2
          (Std.ExtTreeSet.mem_iff_contains.2 (Bool.and_eq_true_iff.1 noted).2)
      · simp [get?_update, found]
    rw [firm, noted]
    simp
  · rename_i other
    rw [Bool.eq_false_iff.2 other]
    simp [Entity.isTentative]

namespace Session

variable {events : List PassEvent} {session later : Session}

/-- What the events tell, and what the entities of the session note, is the same. -/
def Accounted (events : List PassEvent) (session : Session) : Prop :=
  ConceptLaws.Accounted events session.matcher session.relation

theorem Accounted.rest (accounted : session.Accounted events) (rests : session.Rests later) :
    later.Accounted events := by
  unfold Session.Accounted at *
  rw [rests.matcher, rests.relation]
  exact accounted

/-- At first all entities are the user's, by induction on the records. -/
theorem accounted_ofRecords {catalog : Catalog} {settings : Settings} {records : List EntityRecord}
    (made : Session.ofRecords catalog settings records = .ok session) : session.Accounted [] := by
  obtain ⟨relation, built, rfl⟩ := ofRecords_eq_ok made
  have folded : ∀ (records : List EntityRecord) {matcher : Matcher} {start collected : Relation},
      ConceptLaws.Accounted [] matcher start →
        records.foldlM (Relation.addRecord catalog) start = .ok collected →
          ConceptLaws.Accounted [] matcher collected := by
    intro records
    induction records with
    | nil =>
      intro matcher start collected accounted collects
      obtain rfl := Except.ok.inj collects
      exact accounted
    | cons first rest ih =>
      intro matcher start collected accounted collects
      rw [List.foldlM_cons] at collects
      obtain ⟨middle, head, tail⟩ := bind_eq_ok.1 collects
      refine ih ?_ tail
      unfold Relation.addRecord at head
      split at head
      · simp at head
      split at head
      · simp at head
      · rename_i missing
        obtain rfl := Except.ok.inj head
        refine accounted.put ?_ rfl
        exact Option.eq_none_iff_forall_ne_some.2 fun entity found =>
          missing (Relation.contains_iff.2 ⟨entity, found⟩)
  have start : ConceptLaws.Accounted [] (.empty settings.maxMapChecks) .empty := by
    have noMap (id : MapId) : (Matcher.empty settings.maxMapChecks).get? id = none := rfl
    have noEntity (id : EntityId) : Relation.empty.get? id = none := rfl
    exact ⟨by simp [noMap], by simp [noMap], fun _ _ found => by simp [noEntity] at found,
      by simp, by simp, by simp [noEntity], by simp [noEntity]⟩
  unfold Relation.ofRecords at built
  obtain ⟨collected, collects, built⟩ := bind_eq_ok.1 built
  obtain ⟨⟨⟩, -, built⟩ := bind_eq_ok.1 built
  obtain ⟨⟨⟩, -, built⟩ := bind_eq_ok.1 built
  obtain rfl := Except.ok.inj built
  exact (folded records start collects).recomputeDeep

theorem Accounted.accept (accounted : session.Accounted events) {map : MapId}
    (done : session.accept map = .ok later) : later.Accounted events := by
  obtain ⟨matcher, relation, accepted, rfl⟩ := accept_eq_ok done
  obtain rfl := Matcher.relation_of_setTentative accepted
  obtain ⟨-, rfl⟩ := Matcher.extends_of_setTentative accepted
  have settled : ConceptLaws.Accounted events session.matcher (session.relation.settle map) :=
    ConceptLaws.Accounted.edit accounted (session.relation.get?_settle map)
      fun _ entity => entity.sameOrigin_settled map
  refine Accounted.rest ?_ ((rests_flag _ _).trans (rests_resolve _ _))
  exact settled.recomputeDeep.update map fun _ => rfl

theorem relation_accept {map : MapId} (done : session.accept map = .ok later) :
    later.relation = (session.relation.settle map).recomputeDeep := by
  obtain ⟨matcher, relation, accepted, rfl⟩ := accept_eq_ok done
  obtain rfl := Matcher.relation_of_setTentative accepted
  exact ((rests_flag _ _).trans (rests_resolve _ _)).relation

theorem Accounted.evaluate (accounted : session.Accounted events) (options : PassOptions) :
    (session.evaluate options).2.Accounted (events ++ session.evaluateEvents options) := by
  obtain ⟨pass, inferred, rfl, passed⟩ := session.evaluate_eq options
  rw [passed]
  exact Matcher.accounted_evaluate accounted session.catalog options session.flagChanged.dirty

theorem Accounted.setValue (accounted : session.Accounted events) {id : EntityId}
    {value : Payload} (done : session.setValue id value = .ok later) : later.Accounted events := by
  obtain ⟨relation, edited, rfl⟩ := setValue_eq_ok done
  obtain rfl := Relation.setValue_eq_ok edited
  refine ConceptLaws.Accounted.forgetEntity ?_ id
  exact ConceptLaws.Accounted.amend accounted id fun _ =>
    ⟨rfl, rfl, rfl, fun tentative => tentative⟩

theorem Accounted.setConcept (accounted : session.Accounted events) {id : EntityId}
    {concept : ConceptId} (done : session.setConcept id concept = .ok later) :
    later.Accounted events := by
  obtain ⟨relation, edited, rfl⟩ := setConcept_eq_ok done
  obtain rfl := Relation.setConcept_eq_ok edited
  refine ConceptLaws.Accounted.forgetEntity ?_ id
  exact ConceptLaws.Accounted.amend accounted id fun _ =>
    ⟨rfl, rfl, rfl, fun tentative => tentative⟩

theorem Accounted.setParents (accounted : session.Accounted events) {id : EntityId}
    {head reference : Option EntityId} (done : session.setParents id head reference = .ok later) :
    later.Accounted events := by
  obtain ⟨relation, edited, rfl⟩ := setParents_eq_ok done
  obtain ⟨-, -, rfl⟩ := Relation.setParents_eq_ok edited
  refine ConceptLaws.Accounted.forgetEntity (ConceptLaws.Accounted.recomputeDeep ?_) id
  exact ConceptLaws.Accounted.amend accounted id fun _ =>
    ⟨rfl, rfl, rfl, fun tentative => tentative⟩

theorem Accounted.setCatalog (accounted : session.Accounted events) {catalog : Catalog}
    (done : session.setCatalog catalog = .ok later) : later.Accounted events := by
  obtain ⟨-, rfl⟩ | ⟨-, rfl⟩ := setCatalog_eq_ok done
  · exact accounted
  · exact ConceptLaws.Accounted.fewer accounted fun id map found => by
      simp [clearTrees, flag, Matcher.reset, Matcher.get?] at found

theorem Accounted.remove (accounted : session.Accounted events) {id : EntityId} {removed : Entity}
    (done : session.remove id = .ok (removed, later)) :
    later.Accounted (events.filter (!·.concerns id)) := by
  obtain ⟨relation, inferred, dirty, shrunk, rfl⟩ := remove_eq_dropTrees done
  refine Accounted.rest ?_ (rests_dropTrees _ id)
  have left := (ConceptLaws.Accounted.remove accounted shrunk).recomputeDeep
  exact (left.forgetEntity id).foldl_forgetEntity _

theorem Accounted.orKeep (accounted : session.Accounted events)
    {outcome : Except SessionFault Session}
    (done : ∀ later, outcome = .ok later → later.Accounted events) :
    (session.orKeep outcome).Accounted events := by
  cases outcome with
  | error fault => exact accounted
  | ok later => exact done later rfl

/-- Whatever is done, the events go on telling what the entities note. -/
theorem Accounted.perform (accounted : session.Accounted events) (operation : Operation) :
    (session.perform operation).Accounted (session.tell events operation) := by
  cases operation with
  | add record =>
    refine accounted.orKeep fun later done => ?_
    obtain ⟨relation, inserted, rfl⟩ := add_eq_ok done
    obtain ⟨absent, rfl⟩ := Relation.insert_eq_ok inserted
    exact (ConceptLaws.Accounted.put accounted absent rfl).recomputeDeep
  | remove id =>
    change (session.orKeep ((session.remove id).map Prod.snd)).Accounted
      (events.filter (!·.concerns id))
    cases done : session.remove id with
    | error fault =>
      have absent : session.relation.get? id = none := by
        unfold Session.remove Relation.remove at done
        cases found : session.relation.get? id with
        | none => rfl
        | some entity => simp [found] at done
      rw [ConceptLaws.Accounted.filter_eq_self accounted absent]
      exact accounted
    | ok outcome => exact accounted.remove done
  | setValue id value => exact accounted.orKeep fun _ done => accounted.setValue done
  | setConcept id concept => exact accounted.orKeep fun _ done => accounted.setConcept done
  | setParents id head reference => exact accounted.orKeep fun _ done => accounted.setParents done
  | setField id path value =>
    refine accounted.orKeep fun later done => ?_
    cases edited : session.setField id path value with
    | error fault => simp [edited, Except.map] at done
    | ok outcome =>
      rw [edited] at done
      obtain rfl := Except.ok.inj done
      exact accounted.rest (rests_setField edited)
  | setCatalog catalog => exact accounted.orKeep fun _ done => accounted.setCatalog done
  | evaluate options => exact accounted.evaluate options
  | suggest => exact (accounted.evaluate .suggest).rest (rests_resolve _ _)
  | accept map => exact accounted.orKeep fun _ done => accounted.accept done
  | resolve name => exact accounted.rest (session.rests_resolve name)

theorem accounted_record (operations : List Operation) (accounted : session.Accounted events) :
    (record (events, session) operations).2.Accounted (record (events, session) operations).1 := by
  induction operations generalizing events session with
  | nil => exact accounted
  | cons first rest ih => exact ih (accounted.perform first)

/-- Of the correspondences that bore the identifier so far, only the one that bears it now has laid
claim to what is tentative. -/
def Sole (session : Session) (map : MapId) (events : List PassEvent) : Prop :=
  ∀ id entity, session.relation.get? id = some entity → entity.isTentative = true →
    PassEvent.claimed map id ∈ events → id ∈ claimsOf map events

/-- It is so as long as no identifier is given out twice. -/
theorem Accounted.sole (accounted : session.Accounted events) (distinct : (madeBy events).Nodup)
    (map : MapId) : session.Sole map events :=
  fun id _ _ _ member => accounted.latest distinct map id member

/-! ## Identifiers that are given out once -/

/-- The matcher is not reset. -/
def Operation.Steady (session : Session) : Operation → Prop
  | .evaluate options => options.reset = false
  | .setCatalog catalog => catalog.fingerprint = session.catalog.fingerprint
  | _ => True

/-- No operation resets the matcher. -/
def SteadyAll : Session → List Operation → Prop
  | _, [] => True
  | session, first :: rest => first.Steady session ∧ (session.perform first).SteadyAll rest

/-- The identifiers given out are the first ones. -/
def Numbered (session : Session) (events : List PassEvent) : Prop :=
  ∃ count, madeBy events = List.iterate Identifier.next ⟨0⟩ count ∧
    session.matcher.nextMap = Identifier.next^[count] ⟨0⟩

theorem Numbered.of_nextMap (numbered : session.Numbered events)
    (same : later.matcher.nextMap = session.matcher.nextMap) : later.Numbered events := by
  obtain ⟨count, made, next⟩ := numbered
  exact ⟨count, made, same.trans next⟩

theorem Numbered.evaluate (numbered : session.Numbered events) {options : PassOptions}
    (steady : options.reset = false) :
    (session.evaluate options).2.Numbered (events ++ session.evaluateEvents options) := by
  obtain ⟨count, made, next⟩ := numbered
  obtain ⟨more, madeMore, nextMore⟩ := session.matcher.madeBy_evaluate session.relation
    session.catalog steady session.flagChanged.dirty
  obtain ⟨pass, inferred, rfl, passed⟩ := session.evaluate_eq options
  refine ⟨count + more, ?_, ?_⟩
  · unfold evaluateEvents
    rw [madeBy_append, made, madeMore, next, List.iterate_add]
  · rw [passed, Nat.add_comm, Function.iterate_add_apply, ← next]
    exact nextMore

end Session

theorem Matcher.nextMap_foldl_forgetEntity (ids : List EntityId) (matcher : Matcher) :
    (ids.foldl forgetEntity matcher).nextMap = matcher.nextMap := by
  induction ids generalizing matcher with
  | nil => rfl
  | cons first rest ih => exact (ih _).trans (matcher.nextMap_forgetEntity first)

namespace Session

variable {events : List PassEvent} {session later : Session}

/-- The pass that an operation runs. -/
def Operation.options? : Operation → Option PassOptions
  | .evaluate options => some options
  | .suggest => some .suggest
  | _ => none

theorem madeBy_tell (session : Session) (events : List PassEvent) {operation : Operation}
    (noPass : operation.options? = none) :
    madeBy (session.tell events operation) = madeBy events := by
  cases operation with
  | evaluate options => cases noPass
  | suggest => cases noPass
  | remove id => exact madeBy_filter id events
  | _ => rfl

theorem nextMap_orKeep {outcome : Except SessionFault Session}
    (same : ∀ later, outcome = .ok later → later.matcher.nextMap = session.matcher.nextMap) :
    (session.orKeep outcome).matcher.nextMap = session.matcher.nextMap := by
  cases outcome with
  | error fault => rfl
  | ok later => exact same later rfl

/-- Only passes give out identifiers. -/
theorem nextMap_perform {operation : Operation} (steady : operation.Steady session)
    (noPass : operation.options? = none) :
    (session.perform operation).matcher.nextMap = session.matcher.nextMap := by
  cases operation with
  | add record =>
    refine nextMap_orKeep fun later done => ?_
    obtain ⟨relation, -, rfl⟩ := add_eq_ok done
    rfl
  | remove id =>
    refine nextMap_orKeep fun later done => ?_
    cases removed : session.remove id with
    | error fault => simp [removed, Except.map] at done
    | ok outcome =>
      obtain ⟨gone, left⟩ := outcome
      rw [removed] at done
      obtain rfl : left = later := Except.ok.inj done
      obtain ⟨relation, inferred, dirty, -, rfl⟩ := remove_eq_dropTrees removed
      rw [(rests_dropTrees _ id).matcher]
      exact (Matcher.nextMap_foldl_forgetEntity _ _).trans (Matcher.nextMap_forgetEntity _ id)
  | setValue id value =>
    refine nextMap_orKeep fun later done => ?_
    obtain ⟨relation, -, rfl⟩ := setValue_eq_ok done
    exact session.matcher.nextMap_forgetEntity id
  | setConcept id concept =>
    refine nextMap_orKeep fun later done => ?_
    obtain ⟨relation, -, rfl⟩ := setConcept_eq_ok done
    exact session.matcher.nextMap_forgetEntity id
  | setParents id head reference =>
    refine nextMap_orKeep fun later done => ?_
    obtain ⟨relation, -, rfl⟩ := setParents_eq_ok done
    exact session.matcher.nextMap_forgetEntity id
  | setField id path value =>
    refine nextMap_orKeep fun later done => ?_
    cases edited : session.setField id path value with
    | error fault => simp [edited, Except.map] at done
    | ok outcome =>
      rw [edited] at done
      obtain rfl := Except.ok.inj done
      rw [(rests_setField edited).matcher]
  | setCatalog catalog =>
    refine nextMap_orKeep fun later done => ?_
    obtain ⟨-, rfl⟩ | ⟨different, -⟩ := setCatalog_eq_ok done
    · rfl
    · exact (different steady).elim
  | evaluate options => cases noPass
  | suggest => cases noPass
  | accept map =>
    refine nextMap_orKeep fun later done => ?_
    obtain ⟨matcher, relation, accepted, rfl⟩ := accept_eq_ok done
    obtain ⟨-, rfl⟩ := Matcher.extends_of_setTentative accepted
    exact (congrArg Matcher.nextMap ((rests_flag _ _).trans (rests_resolve _ _)).matcher).trans rfl
  | resolve name => exact congrArg Matcher.nextMap (session.rests_resolve name).matcher

theorem Numbered.perform (numbered : session.Numbered events) {operation : Operation}
    (steady : operation.Steady session) :
    (session.perform operation).Numbered (session.tell events operation) := by
  cases pass : operation.options? with
  | none =>
    obtain ⟨count, made, next⟩ := numbered
    exact ⟨count, (session.madeBy_tell events pass).trans made,
      (nextMap_perform steady pass).trans next⟩
  | some options =>
    cases operation with
    | evaluate options => exact numbered.evaluate steady
    | suggest =>
      exact Numbered.of_nextMap (numbered.evaluate rfl)
        (congrArg Matcher.nextMap (rests_resolve _ _).matcher)
    | _ => cases pass

theorem numbered_record (operations : List Operation) (numbered : session.Numbered events)
    (steady : session.SteadyAll operations) :
    (record (events, session) operations).2.Numbered (record (events, session) operations).1 := by
  induction operations generalizing events session with
  | nil => exact numbered
  | cons first rest ih => exact ih (numbered.perform steady.1) steady.2

/-- Below two to the sixty-fourth identifiers do not come around. -/
theorem nodup_iterate_next {count : Nat} (few : count ≤ UInt64.size) :
    (List.iterate Identifier.next (⟨0⟩ : MapId) count).Nodup := by
  have number (index : Nat) (below : index < UInt64.size) :
      (Identifier.next^[index] (⟨0⟩ : MapId)).toNat = index := by
    induction index with
    | zero => rfl
    | succ index ih =>
      have before := ih (by omega)
      rw [Function.iterate_succ_apply', Matcher.toNat_next (by omega), before]
  rw [← List.range_map_iterate, List.nodup_map_iff_inj_on List.nodup_range]
  intro first inFirst second inSecond same
  rw [List.mem_range] at inFirst inSecond
  rw [← number first (by omega), ← number second (by omega), same]

/-- Without a reset, and before the identifiers come around, no identifier is given out twice. -/
theorem nodup_madeBy_record {catalog : Catalog} {settings : Settings} {records : List EntityRecord}
    {start : Session} (made : Session.ofRecords catalog settings records = .ok start)
    {operations : List Operation} (steady : start.SteadyAll operations)
    (few : (madeBy (record ([], start) operations).1).length ≤ UInt64.size) :
    (madeBy (record ([], start) operations).1).Nodup := by
  have fresh : start.Numbered [] := by
    obtain ⟨relation, -, rfl⟩ := ofRecords_eq_ok made
    exact ⟨0, rfl, rfl⟩
  obtain ⟨count, given, -⟩ := numbered_record operations fresh steady
  rw [given] at few ⊢
  exact nodup_iterate_next (by simpa using few)

/-- Whatever was done with a session before, a suggestion that is accepted accepts exactly the
tentative entities that its append created or reused, and all others stay as they are. -/
theorem accepts_claims {catalog : Catalog} {settings : Settings} {records : List EntityRecord}
    {start later : Session} (made : Session.ofRecords catalog settings records = .ok start)
    (operations : List Operation) {map : MapId}
    (done : (record ([], start) operations).2.accept map = .ok later)
    (sole : (record ([], start) operations).2.Sole map (record ([], start) operations).1)
    (id : EntityId) :
    (later.relation.get? id).map Entity.isTentative =
      ((record ([], start) operations).2.relation.get? id).map fun entity =>
        entity.isTentative && !(claimsOf map (record ([], start) operations).1).contains id := by
  have accounted : (record ([], start) operations).2.Accounted (record ([], start) operations).1 :=
    accounted_record operations (accounted_ofRecords made)
  generalize record ([], start) operations = recorded at *
  obtain ⟨events, session⟩ := recorded
  dsimp only at *
  have settles := relation_accept done
  rw [settles, Relation.get?_recomputeDeep, Relation.get?_settle]
  cases found : session.relation.get? id with
  | none => rfl
  | some entity =>
    refine congrArg some ?_
    change (entity.isTentative && !(entity.provenance.appended &&
      entity.provenance.fromMaps.contains map)) =
        (entity.isTentative && !(claimsOf map events).contains id)
    cases tentative : entity.isTentative with
    | false => rfl
    | true =>
      have appended := accounted.appended id entity found tentative
      have noted : entity.provenance.fromMaps.contains map = (claimsOf map events).contains id := by
        rw [Bool.eq_iff_iff, List.contains_iff_mem, ← Std.ExtTreeSet.mem_iff_contains,
          accounted.notes id entity found appended]
        exact ⟨sole id entity found tentative, claimed_of_mem_claimsOf⟩
      simp only [appended, noted, Bool.true_and]

/-! ## A suggestion that was dropped -/

/-- Every vector has an end. -/
def ends : Definition where
  concepts := [⟨⟨1⟩, "vector", [], ∅, none, false⟩, ⟨⟨2⟩, "scalar", [], ∅, none, false⟩,
    ⟨⟨3⟩, "end", [], ∅, none, false⟩]
  laws := [⟨⟨100⟩, "end",
    [⟨⟨1⟩, ⟨1⟩, none, none, .empty, none, none⟩, ⟨⟨2⟩, ⟨3⟩, some ⟨1⟩, none, .empty, none, none⟩],
    [(∅ : Std.ExtTreeSet LawNodeId).insert ⟨1⟩], []⟩]

def endsCatalog : Catalog where
  definition := ends
  lineages := (∅ : Std.ExtTreeMap ConceptId (List ConceptId)).insertMany
    [((⟨1⟩ : ConceptId), [(⟨1⟩ : ConceptId)]), (⟨2⟩, [⟨2⟩]), (⟨3⟩, [⟨3⟩])]
  fingerprint := Fingerprint.ofContent Fingerprint.catalogDomain ends.toCbor

theorem valid_endsCatalog : endsCatalog.Valid := by
  have concepts : ends.checkConcepts = .ok () := rfl
  have lineages : ends.lineages = .ok endsCatalog.lineages := rfl
  have laws : ends.checkLaws [] [] ends.laws = .ok () := rfl
  refine ⟨ends, ?_⟩
  unfold Catalog.ofDefinition
  rw [concepts, lineages, laws]
  rfl

def twoVectors : List EntityRecord :=
  [⟨⟨1⟩, ⟨1⟩, none, none, .empty, none⟩, ⟨⟨2⟩, ⟨1⟩, none, none, .empty, none⟩]

/-- Two vectors of which nothing was asked yet. -/
def pristine : Session :=
  ofRelation endsCatalog .standard
    ((Relation.ofRecords twoVectors endsCatalog).toOption.getD .empty)

/-- Both get an end, and then the first becomes a scalar, which drops the suggestion for it. -/
def dropping : List Operation :=
  [.evaluate .suggest, .setConcept ⟨1⟩ ⟨2⟩]

theorem ofRecords_twoVectors : ofRecords endsCatalog .standard twoVectors = .ok pristine := rfl

/-- The end of the second is accepted, the one whose suggestion was dropped is not. -/
theorem accepts_claims_dropping : ∃ later,
    (record ([], pristine) dropping).2.accept ⟨1⟩ = .ok later ∧
      (later.relation.get? ⟨3⟩).map Entity.isTentative = some true ∧
      (later.relation.get? ⟨4⟩).map Entity.isTentative = some false := by
  have accepted : ((record ([], pristine) dropping).2.accept ⟨1⟩).toOption.isSome = true := by
    decide +kernel
  have distinct : (madeBy (record ([], pristine) dropping).1).Nodup := by decide +kernel
  have claims : claimsOf ⟨1⟩ (record ([], pristine) dropping).1 = [⟨4⟩] := by decide +kernel
  have first : ((record ([], pristine) dropping).2.relation.get? ⟨3⟩).map Entity.isTentative =
      some true := by decide +kernel
  have second : ((record ([], pristine) dropping).2.relation.get? ⟨4⟩).map Entity.isTentative =
      some true := by decide +kernel
  have accounted := accounted_record dropping (accounted_ofRecords ofRecords_twoVectors)
  cases done : (record ([], pristine) dropping).2.accept ⟨1⟩ with
  | error fault =>
    rw [done] at accepted
    cases accepted
  | ok later =>
    have settled := accepts_claims ofRecords_twoVectors dropping done (accounted.sole distinct ⟨1⟩)
    obtain ⟨entity, found, tentative⟩ := Option.map_eq_some_iff.1 first
    obtain ⟨other, foundOther, tentativeOther⟩ := Option.map_eq_some_iff.1 second
    refine ⟨later, rfl, ?_, ?_⟩
    · rw [settled, found, claims]
      simp [tentative]
    · rw [settled, foundOther, claims]
      simp

/-- After the suggestion for the first vector was dropped, the matcher is reset, and the suggestion
for the second one gets the identifier of the dropped one. -/
def restarting : List Operation :=
  dropping ++ [.evaluate { PassOptions.suggest with reset := true }]

/-- The end of the first vector is accepted with that of the second. -/
theorem not_forall_accepts_claims : ¬∀ (catalog : Catalog) (settings : Settings)
    (records : List EntityRecord) (start later : Session) (operations : List Operation)
    (map : MapId) (id : EntityId), catalog.Valid →
      Session.ofRecords catalog settings records = .ok start →
      (record ([], start) operations).2.accept map = .ok later →
      (later.relation.get? id).map Entity.isTentative =
        ((record ([], start) operations).2.relation.get? id).map fun entity =>
          entity.isTentative && !(claimsOf map (record ([], start) operations).1).contains id := by
  intro all
  have accepted : ((record ([], pristine) restarting).2.accept ⟨0⟩).toOption.isSome = true := by
    decide +kernel
  have claims : claimsOf ⟨0⟩ (record ([], pristine) restarting).1 = [⟨4⟩] := by decide +kernel
  have before : ((record ([], pristine) restarting).2.relation.get? ⟨3⟩).map Entity.isTentative =
      some true := by decide +kernel
  have after : (((record ([], pristine) restarting).2.relation.settle ⟨0⟩).recomputeDeep.get?
      ⟨3⟩).map Entity.isTentative = some false := by decide +kernel
  cases done : (record ([], pristine) restarting).2.accept ⟨0⟩ with
  | error fault =>
    rw [done] at accepted
    cases accepted
  | ok later =>
    have stays := all _ _ _ _ later restarting ⟨0⟩ ⟨3⟩ valid_endsCatalog ofRecords_twoVectors done
    obtain ⟨entity, found, tentative⟩ := Option.map_eq_some_iff.1 before
    rw [relation_accept done, after, found, claims] at stays
    simp [tentative] at stays

end Session

end ConceptLaws
