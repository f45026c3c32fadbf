import ConceptLaws.Proofs.Correspondence.Numbering
import ConceptLaws.Proofs.Correspondence.Rederivation
import ConceptLaws.Proofs.Outcome
import ConceptLaws.Proofs.Relation.Loading

/-! Tentative and deep entities.
An appended entity is tentative as long as all correspondences that lay claim to it are. A pass
keeps the flag as it appends and reuses entities; accepting and withdrawing a correspondence reads
it off all correspondences anew. Both come to the same, however the two are mixed. Which entities
are deep is put together at the end of either. -/

namespace ConceptLaws

/-- The flag of an entity is what the correspondences say that lay claim to it, all of which are
satisfied. An entity of the user is never tentative. -/
structure Entity.Reflects (entity : Entity) (matcher : Matcher) : Prop where
  claimed : entity.provenance.appended = true → ∀ id ∈ entity.provenance.fromMaps,
    ∃ map, matcher.get? id = some map ∧ map.satisfied = true
  flag : entity.provenance.appended = true → (entity.isTentative = true ↔
    ∀ id ∈ entity.provenance.fromMaps, ∃ map, matcher.get? id = some map ∧ map.tentative = true)
  own : entity.provenance.appended = false → entity.isTentative = false

namespace Entity.Reflects

variable {entity : Entity} {matcher later : Matcher}

theorem retain (reflects : entity.Reflects matcher) (retains : matcher.Retains later) :
    entity.Reflects later := by
  refine ⟨fun appended id member => ?_, fun appended => (reflects.flag appended).trans ?_,
    reflects.own⟩
  · obtain ⟨map, found, satisfied⟩ := reflects.claimed appended id member
    obtain ⟨after, held, still, -⟩ := retains id map found satisfied
    exact ⟨after, held, still⟩
  · refine forall₂_congr fun id member => ?_
    obtain ⟨map, found, satisfied⟩ := reflects.claimed appended id member
    obtain ⟨after, held, -, same⟩ := retains id map found satisfied
    simp [found, held, same]

theorem new {map : Correspondence} (found : matcher.get? map.id = some map)
    (satisfied : map.satisfied = true) (id : EntityId) (node : LawNode)
    (head reference : Option EntityId) :
    (BranchProgress.newEntity map id node head reference).Reflects matcher := by
  have only (query : MapId) :
      query ∈ (∅ : Std.ExtTreeSet MapId).insert map.id ↔ query = map.id := by
    simpa using eq_comm
  refine ⟨fun _ query member => ?_, fun _ => ?_, fun impossible => by cases impossible⟩
  · exact ⟨map, ((only query).1 member) ▸ found, satisfied⟩
  · change map.tentative = true ↔ ∀ query ∈ (∅ : Std.ExtTreeSet MapId).insert map.id, _
    simp [only, found]

/-- Claiming an entity keeps it tentative only if the correspondence is so too. -/
theorem claim (reflects : entity.Reflects matcher) {map : Correspondence}
    (found : matcher.get? map.id = some map) (satisfied : map.satisfied = true) :
    (entity.claim map).Reflects matcher := by
  unfold Entity.claim
  split
  · rename_i appended
    have noted (query : MapId) : query ∈ entity.provenance.fromMaps.insert map.id ↔
        query = map.id ∨ query ∈ entity.provenance.fromMaps := by
      rw [Std.ExtTreeSet.mem_insert, Std.compare_eq_iff_eq, eq_comm]
    refine ⟨fun _ query member => ?_, fun _ => ?_, fun own => ?_⟩
    · rcases (noted query).1 member with rfl | before
      · exact ⟨map, found, satisfied⟩
      · exact reflects.claimed appended query before
    · change (entity.isTentative && map.tentative) = true ↔
        ∀ query ∈ entity.provenance.fromMaps.insert map.id, _
      simp only [noted, Bool.and_eq_true, reflects.flag appended, forall_eq_or_imp, found,
        Option.some.injEq, exists_eq_left']
      exact and_comm
    · exact absurd (appended.symm.trans own) (by simp)
  · exact reflects

end Entity.Reflects

namespace Relation

variable {relation later : Relation} {matcher : Matcher}

def Reflects (relation : Relation) (matcher : Matcher) : Prop :=
  ∀ id entity, relation.get? id = some entity → entity.Reflects matcher

theorem Reflects.put (reflects : relation.Reflects matcher) {entity : Entity}
    (new : entity.Reflects matcher) : (relation.put entity).Reflects matcher := by
  intro id other found
  rw [get?_put] at found
  split at found
  · obtain rfl := Option.some.inj found
    exact new
  · exact reflects id other found

theorem Reflects.map (reflects : relation.Reflects matcher) {change : Entity → Entity}
    {afterwards : Matcher} (mapped : ∀ id, later.get? id = (relation.get? id).map change)
    (kept : ∀ entity : Entity, entity.Reflects matcher → (change entity).Reflects afterwards) :
    later.Reflects afterwards := by
  intro id after found
  rw [mapped] at found
  obtain ⟨entity, held, rfl⟩ := Option.map_eq_some_iff.1 found
  exact kept entity (reflects id entity held)

theorem Reflects.foldl_claim {map : Correspondence} (found : matcher.get? map.id = some map)
    (satisfied : map.satisfied = true) (pairs : List Pair) :
    ∀ {relation : Relation}, relation.Reflects matcher →
      (pairs.foldl (fun relation pair => relation.update pair.entity (Entity.claim map))
        relation).Reflects matcher := by
  induction pairs with
  | nil => exact fun reflects => reflects
  | cons first rest ih =>
    refine fun reflects => ih fun id after held => ?_
    rw [get?_update] at held
    split at held
    · obtain ⟨entity, before, rfl⟩ := Option.map_eq_some_iff.1 held
      exact (reflects id entity before).claim found satisfied
    · exact reflects id after held

/-- Records are the user's. -/
theorem reflects_collected {records : List EntityRecord}
    (distinct : (records.map EntityRecord.id).Nodup) (matcher : Matcher) :
    (collected records).Reflects matcher := by
  intro id entity found
  obtain ⟨record, -, -, rfl⟩ := (get?_collected distinct).1 found
  refine ⟨fun impossible => ?_, fun impossible => ?_, fun _ => rfl⟩
  · cases impossible
  · cases impossible

theorem Reflects.recomputeDeep (reflects : relation.Reflects matcher) :
    relation.recomputeDeep.Reflects matcher :=
  reflects.map (get?_recomputeDeep _) fun _ before => ⟨before.claimed, before.flag, before.own⟩

/-- The deep entities are those that are accepted and that no accepted entity links to. -/
def MarksDeep (relation : Relation) : Prop :=
  ∀ id entity, relation.get? id = some entity → (entity.deep = true ↔
    entity.isTentative = false ∧ ∀ child other, relation.get? child = some other →
      other.isTentative = false → id ∉ other.parents)

theorem mem_supporting {id : EntityId} : id ∈ relation.supporting ↔
    ∃ child entity, relation.get? child = some entity ∧ entity.isTentative = false ∧
      id ∈ entity.parents := by
  unfold supporting
  rw [mem_foldl_insertMany]
  simp only [Std.ExtTreeSet.not_mem_empty, false_or, List.mem_filter, Bool.not_eq_true']
  constructor
  · rintro ⟨entity, ⟨listed, accepted⟩, linked⟩
    obtain ⟨child, found⟩ := mem_values.1 listed
    exact ⟨child, entity, found, accepted, linked⟩
  · rintro ⟨child, entity, found, accepted, linked⟩
    exact ⟨entity, ⟨mem_values.2 ⟨child, found⟩, accepted⟩, linked⟩

theorem Named.marksDeep_recomputeDeep (named : relation.Named) :
    relation.recomputeDeep.MarksDeep := by
  intro id after found
  have origin := found
  rw [get?_recomputeDeep] at origin
  obtain ⟨entity, held, rfl⟩ := Option.map_eq_some_iff.1 origin
  have linked : relation.supporting.contains entity.id = true ↔
      ∃ child other, relation.recomputeDeep.get? child = some other ∧
        other.isTentative = false ∧ id ∈ other.parents := by
    rw [named id entity held, ← Std.ExtTreeSet.mem_iff_contains, mem_supporting]
    simp only [get?_recomputeDeep]
    constructor
    · rintro ⟨child, other, there, accepted, parent⟩
      exact ⟨child, _, congrArg (Option.map _) there, accepted, parent⟩
    · rintro ⟨child, other, there, accepted, parent⟩
      obtain ⟨before, heldToo, rfl⟩ := Option.map_eq_some_iff.1 there
      exact ⟨child, before, heldToo, accepted, parent⟩
  change (!entity.isTentative && !relation.supporting.contains entity.id) = true ↔
    entity.isTentative = false ∧ _
  rw [Bool.and_eq_true, Bool.not_eq_true', Bool.not_eq_true']
  refine and_congr_right fun _ => ?_
  rw [← Bool.not_eq_true, linked]
  simp only [not_exists, not_and]

end Relation

/-! ## Branches and acts -/

namespace BranchProgress

variable {matcher : Matcher} {map : Correspondence}

/-- Whatever a branch creates reflects the correspondence alone. -/
theorem reflects_run (found : matcher.get? map.id = some map) (satisfied : map.satisfied = true)
    (catalog : Catalog) (steps : List BranchStep) {progress : BranchProgress}
    (reflects : progress.relation.Reflects matcher) :
    (progress.run catalog map steps).2.relation.Reflects matcher := by
  refine keeps_run (motive := fun relation _ => relation.Reflects matcher)
    (fun middle node head reference before => ?_) steps reflects
  unfold create
  dsimp only
  split
  · exact before
  · rename_i inserted
    obtain ⟨-, rfl⟩ := Relation.insert_eq_ok inserted
    exact Relation.Reflects.put (fun id entity held => before id entity held)
      (.new found satisfied _ _ _ _)

end BranchProgress

namespace PassState

variable {context : PassContext} {state later : PassState} {events : List PassEvent}

/-- The flags are what the correspondences of the state say. -/
def Reflects (state : PassState) : Prop := state.relation.Reflects state.matcher

theorem Reflects.appendBranch (reflects : state.Reflects) (numbered : state.matcher.Numbered)
    {id : MapId} (settled : state.Settles id) (context : PassContext) (node : LawNodeId) :
    (state.appendBranch context id node).2.relation.Reflects state.matcher := by
  unfold PassState.appendBranch
  cases found : state.matcher.get? id with
  | none => exact reflects
  | some map =>
    dsimp only
    split
    · exact reflects
    obtain rfl := numbered.named id map found
    have satisfied := settled map found rfl
    unfold commit
    rw [found]
    dsimp only
    split
    · exact fun query entity held => reflects query entity held
    · rename_i plan _ _ progress ran
      have start : (BranchProgress.start state.relation).relation.Reflects state.matcher := reflects
      have made := BranchProgress.reflects_run found satisfied context.catalog plan.steps start
      rw [ran] at made
      exact Relation.Reflects.foldl_claim found satisfied _ made

/-- An act leaves the flags as the correspondences say. -/
theorem Act.reflects (act : Act context state events later) (numbered : state.matcher.Numbered)
    (free : ¬state.matcher.Exhausted) (reflects : state.Reflects) : later.Reflects := by
  have retains := numbered.retains free (act.changes numbered)
  have kept : later.relation.Reflects state.matcher := by
    cases act with
    | note tag entity => exact reflects
    | spend paid => exact reflects
    | sow planned place unseeded => exact reflects
    | unite foundLeft foundRight united => exact reflects
    | satisfy found =>
      rw [relation_markSatisfied]
      exact reflects
    | branch id node settled => exact reflects.appendBranch numbered settled context node
    | conclude id conclusions => exact reflects
  exact fun id entity found => (kept id entity found).retain retains

/-- As long as identifiers are left in the end, by induction on the acts. -/
theorem Acts.reflects (acts : Acts context state events later)
    (numbered : state.matcher.Numbered) :
    later.matcher.Numbered ∧ (state.matcher.Exhausted → later.matcher.Exhausted) ∧
      (¬later.matcher.Exhausted → state.Reflects → later.Reflects) := by
  induction acts with
  | refl => exact ⟨numbered, fun exhausted => exhausted, fun _ reflects => reflects⟩
  | step act _ ih =>
    have changes := act.changes numbered
    obtain ⟨numberedLast, exhausts, onward⟩ := ih (numbered.changes changes)
    refine ⟨numberedLast, fun exhausted => exhausts (changes.exhausted exhausted),
      fun free reflects => ?_⟩
    have freeBefore := mt (fun exhausted => exhausts (changes.exhausted exhausted)) free
    exact onward free (act.reflects numbered freeBefore reflects)

end PassState

/-! ## Passes, and correspondences that are accepted or withdrawn -/

namespace Matcher

/-- What holds of a matcher and a relation after whatever was done with them. -/
structure Settled (matcher : Matcher) (relation : Relation) : Prop where
  numbered : matcher.Numbered
  named : relation.Named
  reflects : ¬matcher.Exhausted → relation.Reflects matcher
  deep : relation.MarksDeep

variable {matcher : Matcher} {relation : Relation}

theorem settled_ofRecords {records : List EntityRecord} {catalog : Catalog}
    (built : Relation.ofRecords records catalog = .ok relation) (maxChecks : Nat) :
    (empty maxChecks).Settled relation := by
  obtain ⟨loadable, rfl⟩ := Relation.ofRecords_eq_ok_iff.1 built
  exact ⟨numbered_empty maxChecks, Relation.named_ofRecords built,
    fun _ => (Relation.reflects_collected loadable.distinct _).recomputeDeep,
    (Relation.named_collected loadable.distinct).marksDeep_recomputeDeep⟩

theorem Settled.evaluate (settled : matcher.Settled relation) (catalog : Catalog)
    {options : PassOptions} (steady : options.reset = false) (dirty : Std.ExtTreeSet EntityId) :
    (matcher.evaluate relation catalog options dirty).matcher.Settled
      (matcher.evaluate relation catalog options dirty).relation := by
  have maps : (matcher.prepare options).maps = matcher.maps := by simp [prepare, steady]
  have same := get?_of_maps maps
  obtain ⟨numbered, exhausts, reflects⟩ := (matcher.acts_passed relation catalog options
    dirty).reflects (settled.numbered.prepare steady)
  have namedLast : (matcher.passed relation catalog options dirty).relation.Named :=
    (PassState.extends_rounds ⟨catalog, options.tentative⟩ options.tag dirty _ ∅ _).named
      settled.named
  refine ⟨numbered, (Relation.extends_recomputeDeep _).named namedLast, fun free => ?_,
    namedLast.marksDeep_recomputeDeep⟩
  have freeBefore : ¬matcher.Exhausted := fun exhausted =>
    free (exhausts fun id => (same id).symm ▸ exhausted id)
  have before : relation.Reflects (matcher.prepare options) := fun id entity found =>
    (settled.reflects freeBefore id entity found).retain fun query map held satisfied =>
      ⟨map, (same query).trans held, satisfied, rfl⟩
  exact Relation.Reflects.recomputeDeep (reflects free before)

/-- The entities that a correspondence lays claim to. -/
def claims (id : MapId) (entity : Entity) : Bool :=
  entity.provenance.appended && entity.provenance.fromMaps.contains id

/-- An entity is tentative as long as all its correspondences are. -/
def resettle (matcher : Matcher) (entity : Entity) : Entity :=
  { entity with provenance := { entity.provenance with tentative := matcher.allTentative entity } }

/-- A satisfied correspondence gets the flag, and the entities that it lays claim to read theirs
anew. -/
theorem setTentative_eq_ok {id : MapId} {tentative : Bool} {later : Matcher} {after : Relation}
    (done : matcher.setTentative relation id tentative = .ok (later, after)) :
    later = matcher.update id (fun map => { map with tentative := tentative }) ∧
      after = Relation.recomputeDeep { relation with
        entities := relation.entities.map fun _ entity =>
          if claims id entity then later.resettle entity else entity } := by
  unfold setTentative at done
  split at done
  · simp at done
  split at done
  · simp at done
  obtain ⟨rfl, rfl⟩ := Prod.mk.inj (Except.ok.inj done)
  exact ⟨rfl, rfl⟩

/-- Where all correspondences that lay claim to an entity are there, all of them count. -/
theorem allTentative_iff {entity : Entity}
    (claimed : ∀ id ∈ entity.provenance.fromMaps, ∃ map, matcher.get? id = some map) :
    matcher.allTentative entity = true ↔ ∀ id ∈ entity.provenance.fromMaps,
      ∃ map, matcher.get? id = some map ∧ map.tentative = true := by
  unfold allTentative
  rw [List.all_eq_true]
  simp only [Std.ExtTreeSet.mem_toList]
  refine forall₂_congr fun id member => ?_
  obtain ⟨map, found⟩ := claimed id member
  simp [found]

end Matcher

/-- Reading the flags anew after one correspondence has changed its own. -/
theorem Entity.Reflects.revise {entity : Entity} {matcher : Matcher}
    (reflects : entity.Reflects matcher) (id : MapId) (tentative : Bool) {later : Matcher}
    (revised : later = matcher.update id fun map => { map with tentative := tentative }) :
    (if Matcher.claims id entity then later.resettle entity else entity).Reflects later := by
  have elsewhere (query : MapId) (different : query ≠ id) :
      later.get? query = matcher.get? query := by
    rw [revised, Matcher.get?_update, if_neg different]
  have claimed (appended : entity.provenance.appended = true) (query : MapId)
      (member : query ∈ entity.provenance.fromMaps) :
      ∃ map, later.get? query = some map ∧ map.satisfied = true := by
    obtain ⟨map, found, satisfied⟩ := reflects.claimed appended query member
    rw [revised, Matcher.get?_update]
    split
    · exact ⟨{ map with tentative := tentative }, by rw [found]; rfl, satisfied⟩
    · exact ⟨map, found, satisfied⟩
  unfold Matcher.claims
  split
  · rename_i noted
    obtain ⟨appended, -⟩ := Bool.and_eq_true_iff.1 noted
    refine ⟨claimed, fun _ => ?_, fun own => absurd (appended.symm.trans own) (by simp)⟩
    exact Matcher.allTentative_iff fun query member =>
      (claimed appended query member).imp fun _ => And.left
  · rename_i unnoted
    refine ⟨claimed, fun appended => (reflects.flag appended).trans ?_, reflects.own⟩
    refine forall₂_congr fun query member => ?_
    rw [elsewhere query]
    rintro rfl
    exact unnoted (Bool.and_eq_true_iff.2 ⟨appended, Std.ExtTreeSet.mem_iff_contains.1 member⟩)

namespace Matcher

variable {matcher : Matcher} {relation : Relation}

theorem Settled.setTentative (settled : matcher.Settled relation) {id : MapId} {tentative : Bool}
    {later : Matcher} {after : Relation}
    (done : matcher.setTentative relation id tentative = .ok (later, after)) :
    later.Settled after := by
  obtain ⟨revised, rfl⟩ := setTentative_eq_ok done
  have mapped (query : EntityId) : ({ relation with
      entities := relation.entities.map fun _ entity =>
        if claims id entity then later.resettle entity else entity } : Relation).get? query =
      (relation.get? query).map fun entity =>
        if claims id entity then later.resettle entity else entity :=
    Std.ExtTreeMap.getElem?_map
  have named : ({ relation with
      entities := relation.entities.map fun _ entity =>
        if claims id entity then later.resettle entity else entity } : Relation).Named := by
    intro query entity found
    rw [mapped] at found
    obtain ⟨before, held, rfl⟩ := Option.map_eq_some_iff.1 found
    have same := settled.named query before held
    split
    · exact same
    · exact same
  refine ⟨revised ▸ settled.numbered.update id fun _ => rfl,
    (Relation.extends_recomputeDeep _).named named, fun free => ?_, named.marksDeep_recomputeDeep⟩
  rw [revised, exhausted_update] at free
  exact ((settled.reflects free).map mapped fun entity reflects =>
    reflects.revise id tentative revised).recomputeDeep

/-! ## Anything that is done -/

/-- What is done with a matcher and its relation. -/
inductive Action where
  | evaluate (catalog : Catalog) (options : PassOptions) (dirty : Std.ExtTreeSet EntityId)
  | setTentative (map : MapId) (tentative : Bool)

/-- A pass does not start without correspondences. -/
def Action.Steady : Action → Prop
  | evaluate _ options _ => options.reset = false
  | setTentative _ _ => True

/-- The matcher and the relation after an action; one that fails leaves both alone. -/
def perform (state : Matcher × Relation) : Action → Matcher × Relation
  | .evaluate catalog options dirty =>
    let pass := state.1.evaluate state.2 catalog options dirty
    (pass.matcher, pass.relation)
  | .setTentative map tentative =>
    match state.1.setTentative state.2 map tentative with
    | .error _ => state
    | .ok later => later

def performAll (state : Matcher × Relation) (actions : List Action) : Matcher × Relation :=
  actions.foldl perform state

theorem Settled.perform {state : Matcher × Relation} (settled : state.1.Settled state.2)
    {action : Action} (steady : action.Steady) :
    (perform state action).1.Settled (perform state action).2 := by
  cases action with
  | evaluate catalog options dirty => exact settled.evaluate catalog steady dirty
  | setTentative map tentative =>
    unfold Matcher.perform
    dsimp only
    split
    · exact settled
    · rename_i done
      exact settled.setTentative done

theorem Settled.performAll (actions : List Action) : ∀ {state : Matcher × Relation},
    state.1.Settled state.2 → (∀ action ∈ actions, action.Steady) →
      (performAll state actions).1.Settled (performAll state actions).2 := by
  induction actions with
  | nil => exact fun settled _ => settled
  | cons first rest ih =>
    intro state settled steady
    exact ih (settled.perform (steady first List.mem_cons_self))
      fun action member => steady action (List.mem_cons_of_mem first member)

/-- What the flags of all entities say. -/
structure Flagged (matcher : Matcher) (relation : Relation) : Prop where
  /-- An appended entity is tentative exactly if every correspondence that it notes is. -/
  appended : ∀ id entity, relation.get? id = some entity → entity.provenance.appended = true →
    (entity.isTentative = true ↔ ∀ query ∈ entity.provenance.fromMaps,
      ∃ map, matcher.get? query = some map ∧ map.tentative = true)
  /-- An entity of the user is never tentative. -/
  own : ∀ id entity, relation.get? id = some entity → entity.provenance.appended = false →
    entity.isTentative = false
  /-- The deep entities are those that are accepted and that no accepted entity links to. -/
  deep : relation.MarksDeep

theorem Settled.flagged (settled : matcher.Settled relation) (free : ¬matcher.Exhausted) :
    matcher.Flagged relation :=
  ⟨fun id entity found => (settled.reflects free id entity found).flag,
    fun id entity found => (settled.reflects free id entity found).own, settled.deep⟩

/-- Whatever passes are made and correspondences accepted or withdrawn, the flags follow, as long as
there are fewer correspondences than identifiers. -/
theorem flagged_performAll {records : List EntityRecord} {catalog : Catalog}
    (built : Relation.ofRecords records catalog = .ok relation) (maxChecks : Nat)
    {actions : List Action} (steady : ∀ action ∈ actions, action.Steady)
    (room : (performAll (empty maxChecks, relation) actions).1.size < UInt64.size) :
    (performAll (empty maxChecks, relation) actions).1.Flagged
      (performAll (empty maxChecks, relation) actions).2 := by
  have start : (empty maxChecks, relation).1.Settled (empty maxChecks, relation).2 :=
    settled_ofRecords built maxChecks
  have settled := start.performAll actions steady
  exact settled.flagged fun exhausted => absurd exhausted.size_le (by omega)

end Matcher

/-- From p follows r below it, by two laws. -/
def byTwoLaws : Catalog := .unchecked ⟨letters, [
  letterLaw 100 [⟨1⟩] [letterNode 1 1 none none, letterNode 2 3 (some ⟨1⟩) none],
  letterLaw 200 [⟨11⟩] [letterNode 11 1 none none, letterNode 12 3 (some ⟨11⟩) none]]⟩

def oneLetter : Relation := letterRelation [letterRecord 1 1 none]

namespace Matcher

/-- Both laws suggest the r. One of the two suggestions is accepted and then withdrawn. -/
def withdrawing : List Action :=
  [.evaluate byTwoLaws .suggest ∅, .setTentative ⟨1⟩ false, .setTentative ⟨1⟩ true]

/-- Once the one suggestion is accepted the r is deep; after it is withdrawn the p is deep again. -/
theorem flagged_withdrawing :
    (performAll (empty 1000, oneLetter) withdrawing).1.Flagged
        (performAll (empty 1000, oneLetter) withdrawing).2 ∧
      (performAll (empty 1000, oneLetter) (withdrawing.take 2)).2.deepIds = [⟨2⟩] ∧
      (performAll (empty 1000, oneLetter) withdrawing).2.deepIds = [⟨1⟩] := by
  have built : Relation.ofRecords [letterRecord 1 1 none] inTwoSteps = .ok oneLetter := rfl
  refine ⟨flagged_performAll built 1000 ?_ (by decide +kernel), by decide +kernel,
    by decide +kernel⟩
  simp [withdrawing, Action.Steady, PassOptions.suggest]

end Matcher

end ConceptLaws
