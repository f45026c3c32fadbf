import ConceptLaws.Proofs.Correspondence.Acts
import Mathlib.Data.List.Iterate

/-! What entities note of a pass.
An appended entity names the correspondences whose append created or reused it, and no others: what
it notes is what the events tell. -/

namespace ConceptLaws

namespace PassEvent

/-- The identifiers given out, in their order. -/
def madeBy (events : List PassEvent) : List MapId := events.filterMap made?

theorem madeBy_append (earlier later : List PassEvent) :
    madeBy (earlier ++ later) = madeBy earlier ++ madeBy later := List.filterMap_append

theorem mem_madeBy {events : List PassEvent} {map : MapId} :
    map ∈ madeBy events ↔ made map ∈ events := by
  unfold madeBy
  rw [List.mem_filterMap]
  constructor
  · rintro ⟨event, member, named⟩
    cases event with
    | made other =>
      obtain rfl := Option.some.inj named
      exact member
    | claimed other entity => cases named
  · exact fun member => ⟨made map, member, rfl⟩

theorem madeBy_claims (map : MapId) (pairs : List Pair) : madeBy (claims map pairs) = [] := by
  induction pairs with
  | nil => rfl
  | cons first rest ih => exact ih

theorem claimsOf_concat (map : MapId) (events : List PassEvent) (event : PassEvent) :
    claimsOf map (events ++ [event]) = note map (claimsOf map events) event := by
  unfold claimsOf
  rw [List.foldl_append]
  rfl

end PassEvent

open PassEvent

/-- The entity is the same one and comes from the same correspondences; at most it is accepted. -/
structure Entity.SameOrigin (entity later : Entity) : Prop where
  id : later.id = entity.id
  appended : later.provenance.appended = entity.provenance.appended
  fromMaps : later.provenance.fromMaps = entity.provenance.fromMaps
  tentative : later.isTentative = true → entity.isTentative = true

/-- What the events tell, and what the entities of a relation note, is the same. -/
structure Accounted (events : List PassEvent) (matcher : Matcher) (relation : Relation) :
    Prop where
  named : ∀ id map, matcher.get? id = some map → map.id = id
  known : ∀ id map, matcher.get? id = some map → made id ∈ events
  entities : relation.Named
  told : ∀ map entity, claimed map entity ∈ events →
    made map ∈ events ∧ relation.contains entity = true
  latest : (madeBy events).Nodup → ∀ map entity, claimed map entity ∈ events →
    entity ∈ claimsOf map events
  appended : ∀ id entity, relation.get? id = some entity → entity.isTentative = true →
    entity.provenance.appended = true
  notes : ∀ id entity, relation.get? id = some entity → entity.provenance.appended = true →
    ∀ map, map ∈ entity.provenance.fromMaps ↔ claimed map id ∈ events

namespace Accounted

variable {events : List PassEvent} {matcher : Matcher} {relation : Relation}

/-- Correspondences may go, or change in what they map. -/
theorem fewer (accounted : Accounted events matcher relation) {later : Matcher}
    (kept : ∀ id map, later.get? id = some map →
      ∃ before, matcher.get? id = some before ∧ map.id = before.id) :
    Accounted events later relation :=
  { accounted with
    named := fun id map found => by
      obtain ⟨before, held, same⟩ := kept id map found
      exact same.trans (accounted.named id before held)
    known := fun id map found => by
      obtain ⟨before, held, -⟩ := kept id map found
      exact accounted.known id before held }

theorem of_maps (accounted : Accounted events matcher relation) {later : Matcher}
    (same : later.maps = matcher.maps) : Accounted events later relation := by
  refine accounted.fewer fun id map found => ⟨map, ?_, rfl⟩
  unfold Matcher.get? at found ⊢
  rwa [← same]

theorem update (accounted : Accounted events matcher relation) (id : MapId)
    {change : Correspondence → Correspondence}
    (same : ∀ map : Correspondence, (change map).id = map.id) :
    Accounted events (matcher.update id change) relation := by
  refine accounted.fewer fun query map found => ?_
  rw [Matcher.get?_update] at found
  split at found
  · obtain ⟨before, held, rfl⟩ := Option.map_eq_some_iff.1 found
    exact ⟨before, held, same before⟩
  · exact ⟨map, found, rfl⟩

/-- The entities are edited, but not in where they come from. -/
theorem edit (accounted : Accounted events matcher relation) {later : Relation}
    {change : EntityId → Entity → Entity}
    (edited : ∀ id, later.get? id = (relation.get? id).map (change id))
    (same : ∀ id (entity : Entity), entity.SameOrigin (change id entity)) :
    Accounted events matcher later := by
  have origin {id : EntityId} {after : Entity} (found : later.get? id = some after) :
      ∃ entity, relation.get? id = some entity ∧ entity.SameOrigin after := by
    rw [edited] at found
    obtain ⟨entity, held, rfl⟩ := Option.map_eq_some_iff.1 found
    exact ⟨entity, held, same id entity⟩
  refine ⟨accounted.named, accounted.known, fun id after found => ?_, fun map entity member => ?_,
    accounted.latest, fun id after found tentative => ?_, fun id after found appended => ?_⟩
  · obtain ⟨entity, held, alike⟩ := origin found
    exact alike.id.trans (accounted.entities id entity held)
  · obtain ⟨known, present⟩ := accounted.told map entity member
    obtain ⟨before, held⟩ := Relation.contains_iff.1 present
    refine ⟨known, Relation.contains_iff.2 ⟨change entity before, ?_⟩⟩
    rw [edited, held]
    rfl
  · obtain ⟨entity, held, alike⟩ := origin found
    rw [alike.appended]
    exact accounted.appended id entity held (alike.tentative tentative)
  · obtain ⟨entity, held, alike⟩ := origin found
    rw [alike.appended] at appended
    rw [alike.fromMaps]
    exact accounted.notes id entity held appended

theorem recomputeDeep (accounted : Accounted events matcher relation) :
    Accounted events matcher relation.recomputeDeep :=
  accounted.edit relation.get?_recomputeDeep fun _ _ => ⟨rfl, rfl, rfl, fun tentative => tentative⟩

theorem of_get? (accounted : Accounted events matcher relation) {later : Relation}
    (same : ∀ id, later.get? id = relation.get? id) : Accounted events matcher later := by
  have edited (id : EntityId) : later.get? id = (relation.get? id).map fun entity => entity := by
    simp [same]
  exact accounted.edit edited fun _ _ => ⟨rfl, rfl, rfl, fun tentative => tentative⟩

/-! ## One event more -/

/-- A correspondence is taken in under the next identifier. -/
theorem make (accounted : Accounted events matcher relation) (map : Correspondence) :
    Accounted (events ++ [made matcher.nextMap]) (matcher.allocate map).2 relation := by
  have old {query : MapId} {entity : EntityId}
      (member : claimed query entity ∈ events ++ [made matcher.nextMap]) :
      claimed query entity ∈ events := by simpa using member
  refine ⟨fun id later found => ?_, fun id later found => ?_, accounted.entities,
    fun query entity member => ?_, fun distinct query entity member => ?_, accounted.appended,
    fun id entity found appended query => ?_⟩
  · rw [Matcher.get?_allocate] at found
    split at found
    · rename_i same
      obtain rfl := Option.some.inj found
      exact same.symm
    · exact accounted.named id later found
  · rw [Matcher.get?_allocate] at found
    split at found
    · rename_i same
      simp [same]
    · exact List.mem_append_left _ (accounted.known id later found)
  · obtain ⟨known, present⟩ := accounted.told query entity (old member)
    exact ⟨List.mem_append_left _ known, present⟩
  · rw [madeBy_append] at distinct
    obtain ⟨before, -, fresh⟩ := List.nodup_append'.1 distinct
    obtain ⟨known, -⟩ := accounted.told query entity (old member)
    rw [claimsOf_concat]
    dsimp only [note]
    rw [if_neg]
    · exact accounted.latest before query entity (old member)
    · rintro rfl
      exact fresh (mem_madeBy.2 known) (by simp [madeBy, made?])
  · rw [accounted.notes id entity found appended]
    simp

/-- A claim is noted by the entity that it is laid to. -/
theorem claim (accounted : Accounted events matcher relation) {map : MapId} {entity : EntityId}
    (known : made map ∈ events) {later : Relation} (named : later.Named)
    (there : ∃ after, later.get? entity = some after ∧
      (after.isTentative = true → after.provenance.appended = true) ∧
      (after.provenance.appended = true → ∀ query, query ∈ after.provenance.fromMaps ↔
        query = map ∨ claimed query entity ∈ events))
    (others : ∀ id, id ≠ entity → later.get? id = relation.get? id) :
    Accounted (events ++ [claimed map entity]) matcher later := by
  obtain ⟨after, held, appended, notes⟩ := there
  refine ⟨accounted.named,
    fun id map found => List.mem_append_left _ (accounted.known id map found), named,
    fun query other member => ?_, fun distinct query other member => ?_,
    fun id other found => ?_, fun id other found => ?_⟩
  · rcases List.mem_append.1 member with before | new
    · obtain ⟨knownBefore, present⟩ := accounted.told query other before
      refine ⟨List.mem_append_left _ knownBefore, ?_⟩
      by_cases same : other = entity
      · exact Relation.contains_iff.2 ⟨after, same ▸ held⟩
      · obtain ⟨record, found⟩ := Relation.contains_iff.1 present
        exact Relation.contains_iff.2 ⟨record, (others other same).trans found⟩
    · obtain ⟨rfl, rfl⟩ := PassEvent.claimed.inj (List.mem_singleton.1 new)
      exact ⟨List.mem_append_left _ known, Relation.contains_iff.2 ⟨after, held⟩⟩
  · rw [madeBy_append] at distinct
    have before := List.Nodup.of_append_left distinct
    rw [claimsOf_concat]
    dsimp only [note]
    rcases List.mem_append.1 member with old | new
    · have claims := accounted.latest before query other old
      split
      · exact List.mem_append_left _ claims
      · exact claims
    · obtain ⟨rfl, rfl⟩ := PassEvent.claimed.inj (List.mem_singleton.1 new)
      simp
  · by_cases same : id = entity
    · rw [same, held] at found
      obtain rfl := Option.some.inj found
      exact appended
    · exact accounted.appended id other ((others id same).symm.trans found)
  · by_cases same : id = entity
    · subst same
      rw [held] at found
      obtain rfl := Option.some.inj found
      intro marked query
      rw [notes marked query]
      simp only [List.mem_append, List.mem_singleton, PassEvent.claimed.injEq, and_true]
      exact or_comm
    · intro marked query
      rw [accounted.notes id other ((others id same).symm.trans found) marked query]
      simp [same]

theorem create (accounted : Accounted events matcher relation) {map : MapId} {entity : Entity}
    (known : made map ∈ events) (absent : relation.get? entity.id = none) {tentative : Bool}
    (new : entity.provenance = ⟨true, tentative, (∅ : Std.ExtTreeSet MapId).insert map⟩) :
    Accounted (events ++ [claimed map entity.id]) matcher (relation.put entity) := by
  refine accounted.claim known (accounted.entities.put entity) ⟨entity, ?_, fun _ => ?_,
    fun _ query => ?_⟩ fun id different => ?_
  · rw [Relation.get?_put, if_pos rfl]
  · rw [new]
  · have unclaimed : claimed query entity.id ∉ events := by
      intro member
      obtain ⟨-, present⟩ := accounted.told query entity.id member
      obtain ⟨before, found⟩ := Relation.contains_iff.1 present
      simp [absent] at found
    simp only [new, Std.ExtTreeSet.mem_insert, Std.compare_eq_iff_eq, unclaimed,
      Std.ExtTreeSet.not_mem_empty, or_false]
    exact eq_comm
  · rw [Relation.get?_put, if_neg different]

theorem reuse (accounted : Accounted events matcher relation) {map : Correspondence}
    (known : made map.id ∈ events) {entity : EntityId} (present : relation.contains entity = true) :
    Accounted (events ++ [claimed map.id entity]) matcher
      (relation.update entity (Entity.claim map)) := by
  obtain ⟨before, found⟩ := Relation.contains_iff.1 present
  refine accounted.claim known (accounted.entities.update entity fun other =>
    (other.alike_claim map).id) ⟨before.claim map, ?_, fun tentative => ?_,
    fun appended query => ?_⟩ fun id different => ?_
  · rw [Relation.get?_update, if_pos rfl, found]
    rfl
  · unfold Entity.claim at tentative ⊢
    split
    · assumption
    · rename_i user
      rw [if_neg user] at tentative
      exact accounted.appended entity before found tentative
  · unfold Entity.claim at appended ⊢
    split at appended
    · rename_i marked
      simp only [if_pos marked, Std.ExtTreeSet.mem_insert, Std.compare_eq_iff_eq]
      rw [accounted.notes entity before found marked, eq_comm]
    · rename_i user
      exact (user appended).elim
  · rw [Relation.get?_update, if_neg different]

end Accounted

/-! ## Branches -/

namespace Relation

variable {relation : Relation}

/-- The child that stands for a node is there. -/
theorem contains_existingChild? (named : relation.Named) {node : LawNode}
    {head reference : Option BranchSlot} {id : EntityId}
    (found : relation.existingChild? node head reference = some id) :
    relation.contains id = true := by
  have searched {head : EntityId} {test : Entity → Bool}
      (hit : (((relation.children head .head).filterMap relation.get?).find? test).map Entity.id =
        some id) : relation.contains id = true := by
    obtain ⟨entity, first, rfl⟩ := Option.map_eq_some_iff.1 hit
    obtain ⟨key, -, held⟩ := List.mem_filterMap.1 (List.mem_of_find?_eq_some first)
    exact contains_iff.2 ⟨entity, (named key entity held).symm ▸ held⟩
  unfold existingChild? at found
  split at found
  · dsimp only at found
    split at found
    · exact searched found
    · split at found
      · exact searched found
      · cases found
  · cases found

end Relation

/-- Every entity that the plan reuses is there. -/
def BranchPlan.Placed (plan : BranchPlan) (relation : Relation) : Prop :=
  ∀ pair ∈ plan.steps.filterMap BranchStep.reused?, relation.contains pair.entity = true

namespace Correspondence

variable {map : Correspondence} {relation : Relation} {catalog : Catalog}

theorem placed_add {plan : BranchPlan} (placed : plan.Placed relation) (node : LawNodeId)
    {step : BranchStep} (slot : BranchSlot)
    (there : ∀ pair, step.reused? = some pair → relation.contains pair.entity = true) :
    (plan.add node step slot).2.Placed relation := by
  intro pair member
  unfold BranchPlan.add at member
  dsimp only at member
  rw [List.filterMap_append, List.mem_append] at member
  rcases member with old | new
  · exact placed pair old
  · obtain ⟨last, listed, reused⟩ := List.mem_filterMap.1 new
    rw [List.mem_singleton.1 listed] at reused
    exact there pair reused

theorem placed_addNode? (named : relation.Named) {plan later : BranchPlan} {node : LawNode}
    {head reference : Option BranchSlot} {slot : BranchSlot} (placed : plan.Placed relation)
    (added : addNode? relation plan node head reference = some (slot, later)) :
    later.Placed relation := by
  unfold addNode? at added
  split at added
  · obtain ⟨owner, -, same⟩ := Option.map_eq_some_iff.1 added
    obtain rfl : _ = later := congrArg Prod.snd same
    exact placed_add placed _ _ fun pair reused => by cases reused
  · split at added
    · rename_i entity found
      obtain rfl : _ = later := congrArg Prod.snd (Option.some.inj added)
      refine placed_add placed _ _ fun pair reused => ?_
      obtain rfl := Option.some.inj reused
      exact Relation.contains_existingChild? named found
    · obtain rfl : _ = later := congrArg Prod.snd (Option.some.inj added)
      exact placed_add placed _ _ fun pair reused => by cases reused

theorem placed_planParent? {planNode : BranchPlan → LawNodeId → Option (BranchSlot × BranchPlan)}
    (keeps : ∀ {plan later : BranchPlan} {id : LawNodeId} {slot : BranchSlot},
      plan.Placed relation → planNode plan id = some (slot, later) → later.Placed relation)
    {plan later : BranchPlan} {parent : Option LawNodeId} {slot : Option BranchSlot}
    (placed : plan.Placed relation)
    (planned : planParent? planNode plan parent = some (slot, later)) : later.Placed relation := by
  unfold planParent? at planned
  split at planned
  · obtain ⟨-, rfl⟩ := Prod.mk.inj (Option.some.inj planned)
    exact placed
  · obtain ⟨⟨found, after⟩, done, same⟩ := Option.map_eq_some_iff.1 planned
    obtain ⟨-, rfl⟩ := Prod.mk.inj same
    exact keeps placed done

/-- By induction on the links that may be followed: the parents come before the node. -/
theorem placed_planNode (named : relation.Named) (depth : Nat) :
    ∀ {plan later : BranchPlan} {id : LawNodeId} {slot : BranchSlot}, plan.Placed relation →
      map.planNode relation catalog depth plan id = some (slot, later) →
        later.Placed relation := by
  induction depth with
  | zero =>
    intro plan later id slot _ planned
    simp [planNode] at planned
  | succ depth ih =>
    intro plan later id slot placed planned
    unfold planNode at planned
    split at planned
    · obtain ⟨-, rfl⟩ := Prod.mk.inj (Option.some.inj planned)
      exact placed
    · obtain ⟨_, -, same⟩ := Option.map_eq_some_iff.1 planned
      obtain ⟨-, rfl⟩ := Prod.mk.inj same
      exact placed
    · obtain ⟨_, -, same⟩ := Option.map_eq_some_iff.1 planned
      obtain ⟨-, rfl⟩ := Prod.mk.inj same
      exact placed
    · simp only [Option.bind_eq_bind, Option.bind_eq_some_iff] at planned
      obtain ⟨node, -, ⟨head, above⟩, headed, ⟨reference, before⟩, referred, added⟩ := planned
      have placedAbove := placed_planParent? ih placed headed
      have placedBefore := placed_planParent? ih placedAbove referred
      exact placed_addNode? named placedBefore added

end Correspondence

namespace Accounted

variable {events : List PassEvent} {matcher : Matcher} {relation : Relation}

/-- Whatever a step makes is claimed; so is what a run makes, by induction on the steps. -/
theorem run {map : Correspondence} {catalog : Catalog} (known : made map.id ∈ events)
    (steps : List BranchStep) {progress later : BranchProgress}
    (accounted : Accounted (events ++ claims map.id progress.created) matcher progress.relation)
    (ran : progress.run catalog map steps = (true, later)) :
    Accounted (events ++ claims map.id later.created) matcher later.relation := by
  induction steps generalizing progress with
  | nil =>
    obtain ⟨-, rfl⟩ := Prod.mk.inj ran
    exact accounted
  | cons first rest ih =>
    unfold BranchProgress.run at ran
    split at ran
    · rename_i middle stepped
      refine ih ?_ ran
      unfold BranchProgress.step at stepped
      split at stepped
      · obtain ⟨-, rfl⟩ := Prod.mk.inj stepped
        exact accounted
      · split at stepped
        · cases stepped
        · unfold BranchProgress.create at stepped
          dsimp only at stepped
          split at stepped
          · cases stepped
          · rename_i node _ relation inserted
            obtain ⟨-, rfl⟩ := Prod.mk.inj stepped
            obtain ⟨absent, rfl⟩ := Relation.insert_eq_ok inserted
            have used : Accounted _ matcher progress.relation.freshId.2 :=
              accounted.of_get? fun _ => rfl
            have claimedNew : Accounted (events ++ claims map.id progress.created ++
                [claimed map.id progress.relation.freshId.1]) matcher _ :=
              used.create (List.mem_append_left _ known) absent rfl
            simpa [claims] using claimedNew
      · split at stepped
        · obtain ⟨-, rfl⟩ := Prod.mk.inj stepped
          exact accounted
        · cases stepped
    · cases ran

/-- Every entity that is reused is claimed. -/
theorem foldl_reuse {map : Correspondence} (known : made map.id ∈ events) (pairs : List Pair)
    (accounted : Accounted events matcher relation)
    (present : ∀ pair ∈ pairs, relation.contains pair.entity = true) :
    Accounted (events ++ claims map.id pairs) matcher
      (pairs.foldl (fun relation pair => relation.update pair.entity (Entity.claim map))
        relation) := by
  induction pairs generalizing events relation with
  | nil => simpa [claims] using accounted
  | cons first rest ih =>
    have head := accounted.reuse known (present first List.mem_cons_self)
    have tail := ih (List.mem_append_left _ known) head fun pair member => by
      rw [Relation.contains_update]
      exact present pair (List.mem_cons_of_mem first member)
    simpa [claims] using tail

end Accounted

namespace PassState

/-- What the events of a part of a pass do. -/
structure Follows (events : List PassEvent) (state later : PassState) : Prop where
  accounted : ∀ {log : List PassEvent}, Accounted log state.matcher state.relation →
    Accounted (log ++ events) later.matcher later.relation
  numbers : ∃ count, madeBy events = List.iterate Identifier.next state.matcher.nextMap count ∧
    later.matcher.nextMap = Identifier.next^[count] state.matcher.nextMap

variable {context : PassContext} {state later : PassState} {events : List PassEvent}

/-- Nothing that is told happens. -/
theorem follows_nil
    (accounted : ∀ {log : List PassEvent}, Accounted log state.matcher state.relation →
      Accounted log later.matcher later.relation)
    (next : later.matcher.nextMap = state.matcher.nextMap) : Follows [] state later :=
  ⟨fun before => by simpa using accounted before, 0, rfl, next⟩

theorem follows_refl (state : PassState) : Follows [] state state :=
  follows_nil (fun accounted => accounted) rfl

theorem Follows.trans {first second third : PassState} {earlier after : List PassEvent}
    (head : Follows earlier first second) (tail : Follows after second third) :
    Follows (earlier ++ after) first third := by
  refine ⟨fun before => ?_, ?_⟩
  · rw [← List.append_assoc]
    exact tail.accounted (head.accounted before)
  · obtain ⟨count, made, next⟩ := head.numbers
    obtain ⟨more, madeMore, nextMore⟩ := tail.numbers
    refine ⟨count + more, ?_, ?_⟩
    · rw [madeBy_append, made, madeMore, next, List.iterate_add]
    · rw [nextMore, next, Nat.add_comm, Function.iterate_add_apply]

theorem follows_markSatisfied (context : PassContext) (state : PassState) (map : Correspondence) :
    Follows [] state (state.markSatisfied context map) := by
  unfold markSatisfied
  split
  · exact follows_refl state
  · exact follows_nil (fun accounted => accounted.update map.id fun _ => rfl) rfl

theorem follows_appendBranch (context : PassContext) (state : PassState) (id : MapId)
    (node : LawNodeId) :
    Follows (state.branchEvents context id node) state (state.appendBranch context id node).2 := by
  unfold branchEvents appendBranch
  cases found : state.matcher.get? id with
  | none => exact follows_refl state
  | some map =>
    dsimp only
    cases planned : map.planBranch? state.relation context.catalog node with
    | none => exact follows_refl state
    | some branch =>
      obtain ⟨root, plan⟩ := branch
      dsimp only
      unfold commit
      rw [found]
      dsimp only
      cases ran : (BranchProgress.start state.relation).run context.catalog map plan.steps with
      | mk succeeded progress =>
        cases succeeded with
        | false => exact follows_nil (fun accounted => accounted.of_get? fun _ => rfl) rfl
        | true =>
          refine ⟨fun {log} accounted => ?_, 0, madeBy_claims _ _, rfl⟩
          obtain rfl := accounted.named id map found
          have known := accounted.known map.id map found
          have placed : plan.Placed state.relation :=
            Correspondence.placed_planNode accounted.entities _ (fun _ member => by cases member)
              planned
          have wider := BranchProgress.extends_run context.catalog map plan.steps
            (.start state.relation)
          rw [ran] at wider
          have started : Accounted (log ++ claims map.id []) state.matcher
              (BranchProgress.start state.relation).relation := by
            simpa [claims, BranchProgress.start] using accounted
          have created := Accounted.run known plan.steps started ran
          have reused := created.foldl_reuse (List.mem_append_left _ known)
            (plan.steps.filterMap BranchStep.reused?) fun pair member =>
              wider.contains (placed pair member)
          have adopted := reused.update map.id fun before => (before.stays_adopt
            (plan.steps.filterMap BranchStep.reused? ++ progress.created) progress.formulas).id
          simpa [claims, PassState.adopt] using adopted

/-! ## Acts and passes -/

theorem follows_spend {spent : Matcher} (paid : state.matcher.spend? = some spent) :
    Follows [] state { state with matcher := spent } := by
  unfold Matcher.spend? at paid
  split at paid
  · cases paid
  · obtain rfl := Option.some.inj paid
    exact follows_nil (fun accounted => accounted.of_maps rfl) rfl

/-- A correspondence is taken in, and then perhaps changed in what it intersects. -/
theorem follows_allocate (state : PassState) (map : Correspondence) {matcher : Matcher}
    (kept : ∀ id later, matcher.get? id = some later →
      ∃ before, (state.matcher.allocate map).2.get? id = some before ∧ later.id = before.id)
    (next : matcher.nextMap = state.matcher.nextMap.next) :
    Follows [made state.matcher.nextMap] state { state with matcher } :=
  ⟨fun accounted => (accounted.make map).fewer kept, 1, rfl, next⟩

theorem follows_allocateUnion (state : PassState) (left right merged : Correspondence) :
    Follows [made state.matcher.nextMap] state
      { state with matcher := (state.matcher.allocateUnion left right merged).2 } := by
  refine state.follows_allocate merged (fun id later found => ?_) rfl
  unfold Matcher.allocateUnion at found
  dsimp only at found
  rw [Matcher.get?_update] at found
  split at found
  · obtain ⟨before, held, rfl⟩ := Option.map_eq_some_iff.1 found
    exact ⟨before, held, rfl⟩
  · exact ⟨later, found, rfl⟩

theorem Act.follows (act : Act context state events later) : Follows events state later := by
  cases act with
  | note tag entity => exact follows_nil (fun accounted => accounted.of_maps rfl) rfl
  | spend paid => exact follows_spend paid
  | sow planned => exact state.follows_allocate _ (fun _ map found => ⟨map, found, rfl⟩) rfl
  | unite foundLeft foundRight united => exact state.follows_allocateUnion _ _ _
  | satisfy found => exact follows_markSatisfied context state _
  | branch id node settled => exact follows_appendBranch context state id node
  | conclude id conclusions =>
    exact follows_nil (fun accounted => accounted.update id fun _ => rfl) rfl

theorem Acts.follows (acts : Acts context state events later) : Follows events state later := by
  induction acts with
  | refl state => exact follows_refl state
  | step act _ ih => exact act.follows.trans ih

end PassState

namespace Matcher

theorem follows_passed (matcher : Matcher) (relation : Relation) (catalog : Catalog)
    (options : PassOptions) (dirty : Std.ExtTreeSet EntityId) :
    PassState.Follows (matcher.evaluateEvents relation catalog options dirty)
      ⟨matcher.prepare options, relation, .empty⟩
      (matcher.passed relation catalog options dirty) :=
  (matcher.acts_passed relation catalog options dirty).follows

/-- The events of a pass are all that entities note of it. -/
theorem accounted_evaluate {log : List PassEvent} {matcher : Matcher} {relation : Relation}
    (accounted : Accounted log matcher relation) (catalog : Catalog) (options : PassOptions)
    (dirty : Std.ExtTreeSet EntityId) :
    Accounted (log ++ matcher.evaluateEvents relation catalog options dirty)
      (matcher.evaluate relation catalog options dirty).matcher
      (matcher.evaluate relation catalog options dirty).relation := by
  have prepared : Accounted log (matcher.prepare options) relation := by
    unfold prepare
    split
    · exact accounted.fewer fun id map found => by simp [reset, get?] at found
    · exact accounted.of_maps rfl
  exact ((matcher.follows_passed relation catalog options dirty).accounted prepared).recomputeDeep

/-- Without a reset the identifiers go on from where they were. -/
theorem madeBy_evaluate (matcher : Matcher) (relation : Relation) (catalog : Catalog)
    {options : PassOptions} (steady : options.reset = false) (dirty : Std.ExtTreeSet EntityId) :
    ∃ count, madeBy (matcher.evaluateEvents relation catalog options dirty) =
        List.iterate Identifier.next matcher.nextMap count ∧
      (matcher.evaluate relation catalog options dirty).matcher.nextMap =
        Identifier.next^[count] matcher.nextMap := by
  have kept : (matcher.prepare options).nextMap = matcher.nextMap := by
    unfold prepare
    simp [steady]
  rw [← kept]
  exact (matcher.follows_passed relation catalog options dirty).numbers

end Matcher

end ConceptLaws
