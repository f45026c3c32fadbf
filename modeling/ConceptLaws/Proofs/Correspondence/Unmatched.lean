import ConceptLaws.Proofs.Correspondence.Alternatives
import ConceptLaws.Proofs.Correspondence.Conservation
import ConceptLaws.Proofs.Correspondence.Repeating

/-! What is made for a correspondence.
The plans of branches do not ask which nodes are predicates. An entity is made for a node that a
conclusion needs and that is not mapped, so that it lies outside the predicate set that was matched;
it may lie in another one. No conclusion is left out on that account. -/

namespace ConceptLaws

/-! ## Makers -/

/-- The first of the correspondences that lay claim to the entity. -/
def Entity.maker? (entity : Entity) : Option MapId := entity.provenance.fromMaps.toList.head?

theorem Identifier.isLE_compare {kind : IdKind} {left right : Identifier kind} :
    (compare left right).isLE = true ↔ left.toNat ≤ right.toNat := by
  change (compare left.number right.number).isLE = true ↔ _
  rw [Std.isLE_compare]
  exact UInt64.le_iff_toNat_le

namespace Entity

variable {entity : Entity} {id : MapId}

theorem maker?_eq_some_iff : entity.maker? = some id ↔ id ∈ entity.provenance.fromMaps ∧
    ∀ other ∈ entity.provenance.fromMaps, id.toNat ≤ other.toNat := by
  unfold maker?
  rw [← Std.ExtTreeSet.min?_eq_head?_toList, Std.ExtTreeSet.min?_eq_some_iff_mem_and_forall]
  simp only [Identifier.isLE_compare]

/-- A later claim leaves the maker as it is. -/
theorem maker?_claim {map : Correspondence} (made : entity.maker? = some id)
    (earlier : id.toNat ≤ map.id.toNat) : (entity.claim map).maker? = some id := by
  unfold claim
  split
  · obtain ⟨claimed, first⟩ := maker?_eq_some_iff.1 made
    refine maker?_eq_some_iff.2 ⟨?_, fun other later => ?_⟩
    · exact Std.ExtTreeSet.mem_insert.2 (.inr claimed)
    · rcases Std.ExtTreeSet.mem_insert.1 later with same | old
      · rw [← Std.compare_eq_iff_eq.1 same]
        exact earlier
      · exact first other old
  · exact made

theorem maker?_newEntity (map : Correspondence) (fresh : EntityId) (node : LawNode)
    (head reference : Option EntityId) :
    (BranchProgress.newEntity map fresh node head reference).maker? = some map.id := by
  refine maker?_eq_some_iff.2 ⟨?_, fun other claimed => ?_⟩
  · exact Std.ExtTreeSet.mem_insert.2 (.inl Std.ReflCmp.compare_self)
  · rcases Std.ExtTreeSet.mem_insert.1 claimed with same | old
    · exact Nat.le_of_eq (congrArg Identifier.toNat (Std.compare_eq_iff_eq.1 same))
    · exact absurd old Std.ExtTreeSet.not_mem_empty

end Entity

def Relation.maker? (relation : Relation) (id : EntityId) : Option MapId :=
  relation.get? id >>= Entity.maker?

namespace BranchProgress

/-- All that a run makes is made for the correspondence. -/
theorem maker?_run (map : Correspondence) (catalog : Catalog) (steps : List BranchStep)
    {progress : BranchProgress}
    (made : ∀ pair ∈ progress.created, progress.relation.maker? pair.entity = some map.id) :
    ∀ pair ∈ (progress.run catalog map steps).2.created,
      (progress.run catalog map steps).2.relation.maker? pair.entity = some map.id := by
  refine keeps_run (motive := fun relation created => ∀ pair ∈ created,
    relation.maker? pair.entity = some map.id) (fun middle node head reference before => ?_) steps made
  unfold create
  dsimp only
  split
  · exact before
  · rename_i inserted
    obtain ⟨-, rfl⟩ := Relation.insert_eq_ok inserted
    intro pair member
    unfold Relation.maker?
    rw [Relation.get?_put]
    split
    · exact Entity.maker?_newEntity map middle.relation.freshId.1 node (head >>= middle.resolve?)
        (reference >>= middle.resolve?)
    · rename_i different
      rcases List.mem_append.1 member with old | new
      · exact before pair old
      · rw [List.mem_singleton.1 new] at different
        exact absurd rfl different

/-- What is made is not of data: the plan has the node on account of a step that makes it. -/
theorem Carries.exists_plain {map : Correspondence} {relation : Relation} {catalog : Catalog}
    {plan : BranchPlan} {progress : BranchProgress}
    (carries : progress.Carries map relation catalog plan) {pair : Pair}
    (created : pair ∈ progress.created) :
    ∃ node, catalog.lawNode? map.law pair.node = some node ∧ node.isData = false := by
  have listed : pair ∈ pairs plan progress := List.mem_append_right _ created
  obtain ⟨_, lacks⟩ := carries.lacks_of_pair listed
  obtain ⟨step, member, about⟩ : ∃ step ∈ plan.steps, step.node = pair.node ∧
      ∀ owner, step ≠ .formula pair.node owner := by
    rcases carries.exists_step listed with reused | ⟨-, _, _, made⟩
    · exact ⟨_, reused, rfl, by simp⟩
    · exact ⟨_, made, rfl, by simp⟩
  obtain ⟨slot, held⟩ := Option.isSome_iff_exists.1
    (Std.ExtTreeMap.mem_iff_isSome_getElem?.1 (carries.laid.noted step member))
  rw [about.1] at held
  cases carries.explained.slots pair.node slot held with
  | mapped mapped _ => cases lacks.unmapped.symm.trans mapped
  | owned _ owned _ => cases lacks.unowned.symm.trans owned
  | formula _ _ _ _ written =>
    exact absurd (carries.step_unique member written about.1) (about.2 _)
  | reuse lacks plain _ _ _ => exact ⟨_, lacks.named, plain⟩
  | create lacks plain _ _ _ => exact ⟨_, lacks.named, plain⟩

end BranchProgress

/-! ## Appending -/

/-- The node is needed by a conclusion, and is not of data. -/
structure Catalog.Concludes (catalog : Catalog) (law : LawId) (id : LawNodeId) : Prop where
  needed : ∃ conclusion ∈ catalog.conclusions law, catalog.Needs law conclusion id
  plain : ∃ node, catalog.lawNode? law id = some node ∧ node.isData = false

namespace PassState

variable {context : PassContext} {catalog : Catalog} {first second third state later : PassState}
  {map middle after : Correspondence} {made more : List Pair}

/-- Entities were made for nodes that the correspondence did not map; those from before have their
makers still. -/
structure Augments (state later : PassState) (catalog : Catalog) (map after : Correspondence)
    (made : List Pair) : Prop where
  appended : later.outcome.appended = state.outcome.appended ++ made.map Pair.entity
  next : later.relation.nextId.toNat = state.relation.nextId.toNat + made.length
  wider : ∀ id, state.relation.contains id = true → later.relation.contains id = true
  fresh : ∀ pair ∈ made, ¬state.relation.contains pair.entity = true
  maker : ∀ pair ∈ made, later.relation.maker? pair.entity = some map.id
  kept : ∀ entity id, state.relation.maker? entity = some id → id.toNat ≤ map.id.toNat →
    later.relation.maker? entity = some id
  mapped : ∀ pair ∈ made, after.entityOf[pair.node]? = some pair.entity
  unmapped : ∀ pair ∈ made, map.entityOf[pair.node]? = none
  concluded : ∀ pair ∈ made, catalog.Concludes map.law pair.node

theorem augments_of_same (relation : later.relation = state.relation)
    (appended : later.outcome.appended = state.outcome.appended) (map after : Correspondence) :
    state.Augments later catalog map after [] := by
  refine ⟨?_, congrArg (·.nextId.toNat) relation, fun id present => relation ▸ present, ?_, ?_,
    fun entity id made _ => relation ▸ made, ?_, ?_, ?_⟩
  · rw [appended, List.map_nil, List.append_nil]
  all_goals exact fun pair member => absurd member List.not_mem_nil

theorem Augments.trans (earlier : first.Augments second catalog map middle made)
    (later : second.Augments third catalog middle after more) (grows : map.Grows middle)
    (growsToo : middle.Grows after) : first.Augments third catalog map after (made ++ more) := by
  have either {property : Pair → Prop} (here : ∀ pair ∈ made, property pair)
      (there : ∀ pair ∈ more, property pair) : ∀ pair ∈ made ++ more, property pair :=
    fun pair member => (List.mem_append.1 member).elim (here pair) (there pair)
  have id := grows.id
  have law := grows.law
  refine ⟨?_, ?_, fun id present => later.wider id (earlier.wider id present), ?_, ?_,
    fun entity maker made before => ?_, ?_, ?_, ?_⟩
  · rw [later.appended, earlier.appended, List.map_append, List.append_assoc]
  · rw [later.next, earlier.next, List.length_append, Nat.add_assoc]
  · exact either earlier.fresh fun pair member present =>
      later.fresh pair member (earlier.wider _ present)
  · refine either (fun pair member => ?_) fun pair member => id ▸ later.maker pair member
    exact later.kept _ _ (earlier.maker pair member) (Nat.le_of_eq (congrArg _ id.symm))
  · exact later.kept entity maker (earlier.kept entity maker made before) (id.symm ▸ before)
  · exact either (fun pair member => growsToo.kept _ _ (earlier.mapped pair member)) later.mapped
  · refine either earlier.unmapped fun pair member => ?_
    refine Option.eq_none_iff_forall_ne_some.2 fun entity held => ?_
    cases (later.unmapped pair member).symm.trans (grows.kept _ _ held)
  · exact either earlier.concluded fun pair member => law ▸ later.concluded pair member

/-- A branch makes entities for nodes that its conclusion needs. -/
theorem Ready.augments {id : MapId} (ready : state.Ready context.catalog id map)
    (valid : context.catalog.Valid) {node : LawNodeId}
    (concluded : node ∈ context.catalog.conclusions map.law)
    (found : (state.appendBranch context id node).2.matcher.get? id = some after) :
    ∃ made, state.Augments (state.appendBranch context id node).2 context.catalog map after made := by
  obtain ⟨slot, plan, progress, planned, branch, ran, carries, placed, -, next⟩ :=
    ready.carries valid concluded
  have needed : ∀ other ∈ plan.slots, context.catalog.Needs map.law node other := by
    have lays := (Correspondence.lays_planNode valid ready.entities _
      (Correspondence.laid_empty map state.relation context.catalog) planned).1
    exact fun other slotted => (lays.needed other slotted).resolve_left (by simp [BranchPlan.empty])
  have same := Relation.sameEntities_foldl_claim map (plan.steps.filterMap BranchStep.reused?)
    progress.relation
  have makers : ∀ pair ∈ progress.created, progress.relation.maker? pair.entity = some map.id := by
    have start : ∀ pair ∈ (BranchProgress.start state.relation).created,
        state.relation.maker? pair.entity = some map.id := fun _ member => by cases member
    have run := BranchProgress.maker?_run map context.catalog plan.steps start
    rw [ran] at run
    exact run
  -- entities that are reused are claimed, which leaves them their makers
  have claims (entity : EntityId) (maker : MapId)
      (held : progress.relation.maker? entity = some maker)
      (before : maker.toNat ≤ map.id.toNat) :
      (BranchProgress.Carries.later map plan progress).maker? entity = some maker := by
    obtain ⟨other, there, made⟩ := Option.bind_eq_some_iff.1 held
    unfold Relation.maker?
    rw [BranchProgress.Carries.get?_later, there]
    split
    · exact Entity.maker?_claim made before
    · exact made
  rw [branch] at found ⊢
  obtain rfl := Option.some.inj
    ((get?_adopt ready.found ready.named plan.steps progress).symm.trans found)
  refine ⟨progress.created, rfl, ?_, fun id present => ?_, fun pair member => ?_,
    fun pair member => ?_, fun entity maker held before => ?_, fun pair member => ?_,
    fun pair member => ?_, fun pair member => ?_⟩
  · exact (congrArg Identifier.toNat same.next).trans next
  · exact carries.gains_later.contains present
  · exact carries.adds.enlarges.apart _ (List.mem_map_of_mem member)
  · exact claims _ _ (makers pair member) (Nat.le_refl _)
  · refine claims _ _ ?_ before
    obtain ⟨other, there, -⟩ := Option.bind_eq_some_iff.1 held
    have old := carries.adds.same entity fun new =>
      carries.adds.enlarges.apart entity new (Relation.contains_iff.2 ⟨other, there⟩)
    unfold Relation.maker? at held ⊢
    rw [old]
    exact held
  · exact carries.mapped_created ready.seated placed member
  · exact carries.unmapped_of_pair (List.mem_append_right _ member)
  · refine ⟨⟨node, concluded, needed pair.node ?_⟩, carries.exists_plain member⟩
    obtain ⟨-, head, reference, listed⟩ | listed :=
      (carries.exists_step (List.mem_append_right _ member)).symm
    · exact carries.laid.noted _ listed
    · exact carries.laid.noted _ listed

/-- By induction on the conclusions: none is left out. -/
theorem Ready.augments_appendAll {id : MapId} (valid : context.catalog.Valid)
    (nodes : List LawNodeId) : ∀ {state : PassState} {map : Correspondence},
      state.Ready context.catalog id map →
      (∀ node ∈ nodes, node ∈ context.catalog.conclusions map.law) →
      ∃ after made, (PassState.appendAll context id nodes state).2.Ready context.catalog id after ∧
        map.Grows after ∧
        state.Augments (PassState.appendAll context id nodes state).2 context.catalog map after made ∧
        ((PassState.appendAll context id nodes state).1.filterMap fun result => result).length =
          nodes.length := by
  induction nodes with
  | nil =>
    exact fun {_ map} ready _ => ⟨map, [], ready, map.grows_refl, augments_of_same rfl rfl map map,
      rfl⟩
  | cons first rest ih =>
    intro state map ready concluded
    have here := concluded first List.mem_cons_self
    obtain ⟨entity, middle, led, readyMiddle, stays, -⟩ := ready.appendBranch valid here
    obtain ⟨made, augments⟩ := ready.augments valid here readyMiddle.found
    obtain ⟨after, more, readyAfter, grows, augmentsToo, complete⟩ := ih readyMiddle
      fun node member => stays.law ▸ concluded node (List.mem_cons_of_mem first member)
    refine ⟨after, made ++ more, readyAfter, stays.toGrows.trans grows,
      augments.trans augmentsToo stays.toGrows grows, ?_⟩
    change (((state.appendBranch context id first).1 ::
      (PassState.appendAll context id rest (state.appendBranch context id first).2).1).filterMap
        fun result => result).length = rest.length + 1
    rw [led, ← complete]
    rfl

/-- Appending a correspondence draws all its conclusions. -/
theorem exists_augments {id : MapId} (valid : context.catalog.Valid)
    (found : state.matcher.get? id = some map) (named : map.id = id)
    (seated : map.Seated state.relation) (entities : state.relation.Named)
    (below : state.relation.Below) (room : ∀ law ∈ context.catalog.laws,
      state.relation.nextId.toNat + law.nodes.length < UInt64.size) :
    ∃ after made, (state.append context id).2.matcher.get? id = some after ∧ map.Grows after ∧
      after.conclusions.length = (context.catalog.conclusions map.law).length ∧
      (state.append context id).2.relation.Below ∧
      state.Augments (state.append context id).2 context.catalog map after made := by
  obtain ⟨marked, ready, grows⟩ := @exists_ready context state id map context.catalog found named
    seated entities below room
  have begun : state.Augments (state.markSatisfied context map) context.catalog map marked [] :=
    augments_of_same (state.relation_markSatisfied context map)
      (state.appended_markSatisfied context map) map marked
  obtain ⟨after, made, readyAfter, growsAfter, augments, complete⟩ := ready.augments_appendAll valid
    (context.catalog.conclusions map.law) fun node member => grows.law.symm ▸ member
  rw [append_of_found found]
  generalize appendAll context id (context.catalog.conclusions map.law)
    (state.markSatisfied context map) = outcome at *
  obtain ⟨results, ended⟩ := outcome
  dsimp only at *
  let last := { after with conclusions := results.filterMap fun result => result }
  have held : (ended.conclude id results).matcher.get? id = some last := by
    unfold conclude
    rw [Matcher.get?_update, if_pos rfl, readyAfter.found]
    rfl
  have growsLast : after.Grows last :=
    ⟨rfl, rfl, rfl, fun _ _ held => held, fun paired => paired⟩
  have closing : ended.Augments (ended.conclude id results) context.catalog after last [] :=
    @augments_of_same _ ended (ended.conclude id results) rfl rfl after last
  refine ⟨last, [] ++ made ++ [], held, (grows.trans growsAfter).trans growsLast, complete,
    readyAfter.below, ?_⟩
  exact (begun.trans augments grows growsAfter).trans closing (grows.trans growsAfter) growsLast

/-! ## What satisfied correspondences have drawn -/

/-- The pass made the entity for the correspondence. -/
def MadeFor (state : PassState) (id : MapId) (entity : EntityId) : Prop :=
  entity ∈ state.outcome.appended ∧ state.relation.maker? entity = some id

instance (state : PassState) (id : MapId) (entity : EntityId) : Decidable (state.MadeFor id entity) :=
  inferInstanceAs (Decidable (_ ∧ _))

/-- The predicate set was matched: its nodes are mapped, and not to entities that the pass made for
the correspondence. -/
def Matched (state : PassState) (map : Correspondence) (set : Std.ExtTreeSet LawNodeId) : Prop :=
  ∀ node ∈ set, ∃ entity, map.entityOf[node]? = some entity ∧ ¬state.MadeFor map.id entity

/-- A predicate set was matched, every conclusion was drawn, and entities were made for nodes outside
the set. -/
structure Draws (state : PassState) (catalog : Catalog) (map : Correspondence)
    (set : Std.ExtTreeSet LawNodeId) : Prop where
  matched : state.Matched map set
  complete : map.conclusions.length = (catalog.conclusions map.law).length
  outside : ∀ node entity, map.entityOf[node]? = some entity → state.MadeFor map.id entity →
    node ∉ set ∧ catalog.Concludes map.law node

variable {set : Std.ExtTreeSet LawNodeId}

theorem Draws.congr (draws : state.Draws catalog map set)
    (same : ∀ entity, later.MadeFor map.id entity ↔ state.MadeFor map.id entity) :
    later.Draws catalog map set where
  matched := fun node member => by
    obtain ⟨entity, held, apart⟩ := draws.matched node member
    exact ⟨entity, held, mt (same entity).1 apart⟩
  complete := draws.complete
  outside := fun node entity held madeFor => draws.outside node entity held ((same entity).1 madeFor)

/-- Every entity that the pass appended was made for a correspondence that the pass satisfied, and
each of these has drawn its conclusions. -/
structure Credits (start state : PassState) (catalog : Catalog) : Prop where
  housed : state.matcher.Housed state.relation
  entities : state.relation.Named
  below : state.relation.Below
  counts : start.Counts state
  count : state.relation.nextId.toNat =
    start.relation.nextId.toNat + state.outcome.appended.length
  made : ∀ entity ∈ state.outcome.appended, ∃ id ∈ state.outcome.satisfied,
    state.relation.maker? entity = some id ∧
      ∃ (map : Correspondence) (node : LawNodeId), state.matcher.get? id = some map ∧
        map.entityOf[node]? = some entity
  drawn : ∀ id ∈ state.outcome.satisfied, ∃ map, state.matcher.get? id = some map ∧
    ∃ law ∈ catalog.laws, law.id = map.law ∧ ∃ set ∈ law.predicateSets,
      state.Draws catalog map set

/-- There are identifiers for all correspondences, and for the entities of any law. -/
structure Roomy (start state : PassState) (catalog : Catalog) : Prop where
  maps : start.matcher.nextMap.toNat + state.matcher.checks < UInt64.size
  entities : ∀ law ∈ catalog.laws, start.relation.nextId.toNat + state.outcome.appended.length +
    law.nodes.length < UInt64.size

variable {start : PassState} {fresh : Pair → Prop}

theorem Advances.roomy (advances : state.Advances later) (roomy : start.Roomy later catalog) :
    start.Roomy state catalog where
  maps := by
    have checks := advances.checks
    have maps := roomy.maps
    omega
  entities := fun law listed => by
    have appended := advances.appended.length_le
    have entities := roomy.entities law listed
    omega

/-- A correspondence that pairs well is taken in. -/
theorem housed_takesIn {matcher taken : Matcher} {relation : Relation}
    (housed : matcher.Housed relation) (takes : matcher.TakesIn taken map)
    (seated : map.Seated relation) : taken.Housed relation := by
  refine ⟨fun query other found => ?_, fun query other found => ?_⟩
  all_goals
    rw [takes.found] at found
    split at found
  · rename_i here
    obtain rfl := Option.some.inj found
    exact takes.named.trans here.symm
  · exact housed.named query other found
  · obtain rfl := Option.some.inj found
    exact seated
  · exact housed.maps query other found

/-- What a turn makes pairs well, and the turn knows whether it fills a predicate set. -/
theorem Begets.seated {relation : Relation} {spent : Matcher} {birth : Correspondence} {fills : Bool}
    (begets : Begets context fresh relation spent birth fills) (housed : spent.Housed relation) :
    birth.Seated relation ∧ (fills = true → birth.Fills context.catalog) := by
  cases begets with
  | seed place allowed planned =>
    exact ⟨Correspondence.seated_ofPlan planned, of_decide_eq_true⟩
  | union foundLeft foundRight unites =>
    have left := housed.maps _ _ foundLeft
    have right := housed.maps _ _ foundRight
    exact ⟨Correspondence.seated_union left right unites,
      (Correspondence.fills_union unites left.paired right.paired).1⟩

/-- Of the entities that the pass has appended so far, those that are appended in addition are the
ones for the new correspondence, and the others keep their makers. -/
theorem Credits.madeFor_iff (credits : start.Credits state catalog)
    (augments : state.Augments later catalog map after made)
    (newer : ∀ query ∈ state.outcome.satisfied, query.toNat < map.id.toNat) (id : MapId)
    (entity : EntityId) :
    (later.MadeFor map.id entity ↔ ∃ pair ∈ made, pair.entity = entity) ∧
      (id ∈ state.outcome.satisfied → (later.MadeFor id entity ↔ state.MadeFor id entity)) := by
  have cases_ {query : MapId} (madeFor : later.MadeFor query entity) :
      (state.MadeFor query entity ∧ query ∈ state.outcome.satisfied) ∨
        (∃ pair ∈ made, pair.entity = entity) ∧ query = map.id := by
    obtain ⟨listed, maker⟩ := madeFor
    rw [augments.appended] at listed
    rcases List.mem_append.1 listed with old | new
    · obtain ⟨other, satisfied, before, -⟩ := credits.made entity old
      have kept := augments.kept entity other before (Nat.le_of_lt (newer other satisfied))
      obtain rfl := Option.some.inj (maker.symm.trans kept)
      exact .inl ⟨⟨old, before⟩, satisfied⟩
    · obtain ⟨pair, member, rfl⟩ := List.mem_map.1 new
      exact .inr ⟨⟨pair, member, rfl⟩,
        Option.some.inj (maker.symm.trans (augments.maker pair member))⟩
  constructor
  · constructor
    · intro madeFor
      rcases cases_ madeFor with ⟨-, satisfied⟩ | ⟨new, -⟩
      · exact absurd (newer _ satisfied) (Nat.lt_irrefl _)
      · exact new
    · rintro ⟨pair, member, rfl⟩
      refine ⟨?_, augments.maker pair member⟩
      rw [augments.appended]
      exact List.mem_append_right _ (List.mem_map_of_mem member)
  · intro satisfied
    constructor
    · intro madeFor
      rcases cases_ madeFor with ⟨old, -⟩ | ⟨-, rfl⟩
      · exact old
      · exact absurd (newer _ satisfied) (Nat.lt_irrefl _)
    · rintro ⟨listed, maker⟩
      refine ⟨?_, augments.kept entity id maker (Nat.le_of_lt (newer id satisfied))⟩
      rw [augments.appended]
      exact List.mem_append_left _ listed

/-- A correspondence that was open draws its conclusions, if its predicate set is mapped. -/
theorem draws_of_augments (augments : state.Augments later catalog map after made)
    (grows : map.Grows after) (seated : map.Seated state.relation)
    (complete : after.conclusions.length = (catalog.conclusions map.law).length)
    (mapped : ∀ node ∈ set, ∃ entity, map.entityOf[node]? = some entity)
    (madeFor : ∀ entity, later.MadeFor map.id entity ↔ ∃ pair ∈ made, pair.entity = entity) :
    later.Draws catalog after set where
  matched := fun node member => by
    obtain ⟨entity, held⟩ := mapped node member
    refine ⟨entity, grows.kept node entity held, fun new => ?_⟩
    obtain ⟨pair, among, rfl⟩ := (madeFor entity).1 (grows.id ▸ new)
    exact augments.fresh pair among (seated.present _ (seated.mem_nodeOf held))
  complete := grows.law ▸ complete
  outside := fun node entity held new => by
    obtain ⟨pair, among, rfl⟩ := (madeFor entity).1 (grows.id ▸ new)
    have paired := grows.paired seated.paired
    have here := (paired _ _).2 (augments.mapped pair among)
    obtain rfl := Option.some.inj (here.symm.trans ((paired _ _).2 held))
    refine ⟨fun member => ?_, grows.law ▸ augments.concluded pair among⟩
    obtain ⟨other, before⟩ := mapped pair.node member
    cases (augments.unmapped pair among).symm.trans before

/-- While nothing is appended, satisfied correspondences stay as they are. -/
theorem Credits.quiet (credits : start.Credits state catalog)
    (relation : later.relation = state.relation)
    (appended : later.outcome.appended = state.outcome.appended)
    (satisfied : later.outcome.satisfied = state.outcome.satisfied)
    (kept : ∀ id ∈ state.outcome.satisfied, later.matcher.get? id = state.matcher.get? id)
    (housed : later.matcher.Housed later.relation) (counts : start.Counts later) :
    start.Credits later catalog := by
  refine ⟨housed, relation ▸ credits.entities, relation ▸ credits.below, counts, ?_,
    fun entity listed => ?_, fun id listed => ?_⟩
  · rw [relation, appended]
    exact credits.count
  · rw [appended] at listed
    obtain ⟨id, among, maker, map, node, found, held⟩ := credits.made entity listed
    exact ⟨id, satisfied ▸ among, relation ▸ maker, map, node, (kept id among).trans found, held⟩
  · rw [satisfied] at listed
    obtain ⟨map, found, law, inCatalog, named, set, member, draws⟩ := credits.drawn id listed
    refine ⟨map, (kept id listed).trans found, law, inCatalog, named, set, member,
      draws.congr fun entity => ?_⟩
    unfold MadeFor
    rw [relation, appended]

/-- A correspondence is satisfied in addition, and has drawn its conclusions. -/
theorem Credits.grow (credits : start.Credits state catalog)
    (augments : state.Augments later catalog map after made) (grows : map.Grows after)
    (seated : map.Seated state.relation) (fills : map.Fills catalog)
    (complete : after.conclusions.length = (catalog.conclusions map.law).length)
    (newer : ∀ id ∈ state.outcome.satisfied, id.toNat < map.id.toNat)
    (kept : ∀ id ∈ state.outcome.satisfied, later.matcher.get? id = state.matcher.get? id)
    (found : later.matcher.get? map.id = some after)
    (satisfied : later.outcome.satisfied = state.outcome.satisfied ++ [map.id])
    (housed : later.matcher.Housed later.relation) (entities : later.relation.Named)
    (below : later.relation.Below) (counts : start.Counts later) : start.Credits later catalog := by
  have makers := credits.madeFor_iff augments newer
  refine ⟨housed, entities, below, counts, ?_, fun entity listed => ?_, fun id listed => ?_⟩
  · rw [augments.next, augments.appended, credits.count, List.length_append, List.length_map,
      Nat.add_assoc]
  · rw [satisfied]
    rw [augments.appended] at listed
    rcases List.mem_append.1 listed with old | new
    · obtain ⟨id, among, maker, other, node, held, mapped⟩ := credits.made entity old
      have same := augments.kept entity id maker (Nat.le_of_lt (newer id among))
      exact ⟨id, List.mem_append_left _ among, same, other, node, (kept id among).trans held, mapped⟩
    · obtain ⟨pair, member, rfl⟩ := List.mem_map.1 new
      exact ⟨map.id, List.mem_append_right _ (List.mem_singleton_self _),
        augments.maker pair member, after, pair.node, found, augments.mapped pair member⟩
  · rw [satisfied] at listed
    rcases List.mem_append.1 listed with old | new
    · obtain ⟨other, held, law, inCatalog, named, set, member, draws⟩ := credits.drawn id old
      refine ⟨other, (kept id old).trans held, law, inCatalog, named, set, member,
        draws.congr fun entity => ?_⟩
      rw [credits.housed.named id other held]
      exact (makers id entity).2 old
    · obtain ⟨law, inCatalog, named, set, member, mapped⟩ :=
        Correspondence.exists_set_of_fills fills
      rw [List.mem_singleton.1 new]
      exact ⟨after, found, law, inCatalog, named.trans grows.law.symm, set, member,
        draws_of_augments augments grows seated complete mapped fun entity =>
          (makers map.id entity).1⟩

/-- By cases on whether the new correspondence fills a predicate set: only then are its conclusions
appended. -/
theorem Credits.turn (credits : start.Credits state context.catalog) (valid : context.catalog.Valid)
    (turn : Turn context fresh state later) (roomy : start.Roomy later context.catalog) :
    start.Credits later context.catalog := by
  have counts := credits.counts.turn turn roomy.maps
  have spare := turn.advances.roomy roomy
  cases turn with
  | check paid =>
    obtain ⟨-, rfl⟩ := Matcher.spend?_eq_some paid
    exact credits.quiet rfl rfl rfl (fun _ _ => rfl) (credits.housed.of_maps rfl) counts
  | @take spent taken birth fills shared paid begets takes checked =>
    have makes : state.Makes (state.settleTaken context taken spent.nextMap fills) birth fills :=
      makes_settleTaken paid begets.open_ takes checked
    obtain ⟨-, rfl⟩ := Matcher.spend?_eq_some paid
    have housedSpent : ({ state.matcher with checks := state.matcher.checks + 1 } :
        Matcher).Housed state.relation := credits.housed.of_maps rfl
    obtain ⟨seatedBirth, filled⟩ := begets.seated housedSpent
    let map : Correspondence := { birth with id := state.matcher.nextMap, intersections := shared }
    have seated : map.Seated state.relation :=
      ⟨seatedBirth.paired, seatedBirth.present, seatedBirth.owned, seatedBirth.satisfied⟩
    have housed : taken.Housed state.relation := housed_takesIn housedSpent takes seated
    have newer : ∀ id ∈ state.outcome.satisfied, id.toNat < map.id.toNat := by
      intro id listed
      obtain ⟨other, found, -⟩ := credits.drawn id listed
      exact credits.counts.issued id other found
    have kept : ∀ id ∈ state.outcome.satisfied,
        (state.settleTaken context taken map.id fills).matcher.get? id = state.matcher.get? id := by
      refine fun id listed => makes.others id fun same => ?_
      exact absurd (same ▸ newer id listed) (Nat.lt_irrefl _)
    cases fills with
    | false => exact credits.quiet rfl rfl rfl kept housed counts
    | true =>
      let before : PassState := { state with matcher := taken }
      have here : before.matcher.get? map.id = some map := (takes.found _).trans (if_pos rfl)
      have room : ∀ law ∈ context.catalog.laws,
          before.relation.nextId.toNat + law.nodes.length < UInt64.size := by
        intro law listed
        have enough := spare.entities law listed
        rw [← credits.count] at enough
        exact enough
      obtain ⟨after, made, found, grows, complete, below, augments⟩ :=
        exists_augments valid here rfl seated credits.entities credits.below room
      obtain ⟨housedLater, entities⟩ :=
        (acts_append context before map.id).housed valid housed credits.entities
      obtain ⟨-, satisfied⟩ := @conserves_append context before map.id map here rfl begets.open_
      have augmentsHere : state.Augments (before.append context map.id).2 context.catalog map after
          made :=
        ⟨augments.appended, augments.next, augments.wider, augments.fresh, augments.maker,
          augments.kept, augments.mapped, augments.unmapped, augments.concluded⟩
      exact credits.grow augmentsHere grows seated (filled rfl) complete newer kept found satisfied
        housedLater entities below counts

end PassState

/-! ## Passes -/

theorem Relation.maker?_recomputeDeep (relation : Relation) (id : EntityId) :
    relation.recomputeDeep.maker? id = relation.maker? id := by
  unfold maker?
  rw [get?_recomputeDeep]
  cases relation.get? id with
  | none => rfl
  | some entity => rfl

/-- Whatever predicates a conclusion needs are in all predicate sets of the law. -/
def Catalog.Anchored (catalog : Catalog) (law : Law) : Prop :=
  ∀ conclusion ∈ catalog.conclusions law.id, ∀ node, catalog.Needs law.id conclusion node →
    law.isPredicate node = true → ∀ set ∈ law.predicateSets, node ∈ set

/-- No entity was made for a predicate. -/
def PassState.InventsNone (pass : PassState) (catalog : Catalog) : Prop :=
  ∀ law ∈ catalog.laws, ∀ (id : MapId) (map : Correspondence) (node : LawNodeId) (entity : EntityId),
    pass.matcher.get? id = some map → law.id = map.law → map.entityOf[node]? = some entity →
      pass.MadeFor id entity → law.isPredicate node = false

namespace Matcher

variable {matcher : Matcher} {relation : Relation} {catalog : Catalog}

theorem credits_evaluate (valid : catalog.Valid) (housed : matcher.Housed relation)
    (issued : matcher.Issued) (entities : relation.Named) (below : relation.Below)
    (options : PassOptions) (dirty : Std.ExtTreeSet EntityId)
    (roomy : (⟨matcher.prepare options, relation, .empty⟩ : PassState).Roomy
      (matcher.evaluate relation catalog options dirty) catalog) :
    (⟨matcher.prepare options, relation, .empty⟩ : PassState).Credits
      (matcher.evaluate relation catalog options dirty) catalog := by
  let start : PassState := ⟨matcher.prepare options, relation, .empty⟩
  have prepared : (matcher.prepare options).Housed relation := by
    unfold prepare
    split
    · exact housed_of_isEmpty rfl
    · exact housed.of_maps rfl
  have begun : start.Credits start catalog :=
    ⟨prepared, entities, below, PassState.counts_refl (issued.prepare options), rfl,
      fun _ listed => absurd listed List.not_mem_nil, fun _ listed => absurd listed List.not_mem_nil⟩
  have visits (state : PassState) (entity : EntityId)
      (holds : start.Roomy state catalog → start.Credits state catalog) :
      start.Roomy (state.visit ⟨catalog, options.tentative⟩ options.tag entity) catalog →
        start.Credits (state.visit ⟨catalog, options.tentative⟩ options.tag entity) catalog :=
    @PassState.keeps_visit ⟨catalog, options.tentative⟩
      (fun state => start.Roomy state catalog → start.Credits state catalog)
      (fun _ _ before turn room => (before (turn.advances.roomy room)).turn valid turn room)
      (fun state tag entity before room => by
        have credits := before ((state.advances_noted tag entity).roomy room)
        obtain ⟨issuedHere, made, fulfilled, gathers, rest⟩ := credits.counts
        exact credits.quiet rfl rfl rfl (fun _ _ => rfl) (credits.housed.of_maps rfl)
          ⟨issuedHere, made, fulfilled, ⟨gathers.there, gathers.satisfies, gathers.apart,
            gathers.distinct, gathers.among⟩, rest⟩)
      options.tag state holds entity
  have passed := PassState.keeps_rounds visits dirty ((matcher.prepare options).maxChecks + 2) ∅
    (fun _ => begun) ⟨roomy.maps, roomy.entities⟩
  obtain ⟨housedLater, named, belowLater, ⟨issuedLater, counts⟩, count, made, drawn⟩ := passed
  have makers (id : EntityId) := (matcher.passed relation catalog options dirty).relation.maker?_recomputeDeep id
  refine ⟨housedLater.extend fun id there => (Relation.contains_recomputeDeep _ id).trans there,
    (Relation.extends_recomputeDeep _).named named, fun id present => ?_, ⟨issuedLater, counts⟩, count,
    fun entity listed => ?_, fun id listed => ?_⟩
  · exact belowLater id ((Relation.contains_recomputeDeep _ id).symm.trans present)
  · obtain ⟨id, among, maker, mapped⟩ := made entity listed
    exact ⟨id, among, (makers entity).trans maker, mapped⟩
  · obtain ⟨map, found, law, inCatalog, named, set, member, draws⟩ := drawn id listed
    refine ⟨map, found, law, inCatalog, named, set, member, draws.congr fun entity => ?_⟩
    exact and_congr_right fun _ => (makers entity).symm ▸ Iff.rfl

/-- Every entity that a pass appends was made for one of the correspondences that it satisfied, and
stands for a node of that one. Each of these has matched a predicate set and drawn all conclusions,
also where these need predicates that were not matched; entities were made for nodes outside the set.
Only where a law has all predicates that its conclusions need in every predicate set are these nodes
no predicates. -/
theorem draws_evaluate (valid : catalog.Valid) (housed : matcher.Housed relation)
    (issued : matcher.Issued) (entities : relation.Named) (below : relation.Below)
    (options : PassOptions) (dirty : Std.ExtTreeSet EntityId)
    (roomy : (⟨matcher.prepare options, relation, .empty⟩ : PassState).Roomy
      (matcher.evaluate relation catalog options dirty) catalog) :
    let pass := matcher.evaluate relation catalog options dirty
    (∀ entity ∈ pass.outcome.appended, ∃ id ∈ pass.outcome.satisfied, pass.MadeFor id entity ∧
      ∃ (map : Correspondence) (node : LawNodeId), pass.matcher.get? id = some map ∧
        map.entityOf[node]? = some entity) ∧
    (∀ id ∈ pass.outcome.satisfied, ∃ map, pass.matcher.get? id = some map ∧
      ∃ law ∈ catalog.laws, law.id = map.law ∧ ∃ set ∈ law.predicateSets,
        pass.Draws catalog map set) ∧
    ((∀ law ∈ catalog.laws, catalog.Anchored law) → pass.InventsNone catalog) := by
  have credits := credits_evaluate valid housed issued entities below options dirty roomy
  refine ⟨fun entity listed => ?_, credits.drawn, fun anchored law inCatalog id map node entity found
    named held madeFor => ?_⟩
  · obtain ⟨id, among, maker, mapped⟩ := credits.made entity listed
    exact ⟨id, among, ⟨listed, maker⟩, mapped⟩
  · obtain ⟨other, among, maker, -⟩ := credits.made entity madeFor.1
    obtain rfl := Option.some.inj (madeFor.2.symm.trans maker)
    obtain ⟨same, foundToo, otherLaw, inCatalogToo, namedToo, set, member, draws⟩ :=
      credits.drawn id among
    obtain rfl := Option.some.inj (found.symm.trans foundToo)
    have laws : catalog.law? map.law = some law := named ▸ valid.law? inCatalog
    have lawsToo : catalog.law? map.law = some otherLaw := namedToo ▸ valid.law? inCatalogToo
    obtain rfl := Option.some.inj (laws.symm.trans lawsToo)
    rw [← credits.housed.named id map found] at madeFor
    obtain ⟨outside, ⟨conclusion, concluded, needs⟩, -⟩ := draws.outside node entity held madeFor
    refine Bool.eq_false_iff.2 fun predicate => outside ?_
    rw [← named] at concluded needs
    exact anchored law inCatalog conclusion concluded node needs predicate set member

/-! ## Conclusions below alternatives -/

/-- A q or an r below a p; then an s below it as well. -/
def forkedLaw : Law := eitherLaw [[⟨1⟩, ⟨2⟩], [⟨1⟩, ⟨3⟩]] [letterNode 1 1 none none,
  letterNode 2 2 (some ⟨1⟩) none, letterNode 3 3 (some ⟨1⟩) none, letterNode 4 4 (some ⟨1⟩) none]

def forked : Catalog := .unchecked ⟨letters, [forkedLaw]⟩

theorem anchored_forked : ∀ law ∈ forked.laws, forked.Anchored law := by
  intro law listed conclusion concluded node needs predicate
  obtain rfl := List.mem_singleton.1 listed
  have last : ∀ id ∈ forked.conclusions ⟨100⟩, id = ⟨4⟩ := by decide +kernel
  obtain rfl := last conclusion concluded
  have reached : node ∈ [(⟨4⟩ : LawNodeId), ⟨1⟩] :=
    needs.mem_of_closed (by decide) (by decide +kernel)
  have known : ∀ id ∈ [(⟨4⟩ : LawNodeId), ⟨1⟩], forkedLaw.isPredicate id = true → id = ⟨1⟩ := by
    decide +kernel
  obtain rfl := known node reached predicate
  decide +kernel

def qBelowP : Relation := letterRelation [letterRecord 1 1 none, letterRecord 2 2 (some ⟨1⟩)]

/-- The s is made, and no r. -/
theorem draws_evaluate_forked :
    ((empty 1000).evaluate qBelowP forked .standard ∅).outcome.appended = [⟨3⟩] ∧
      ((empty 1000).evaluate qBelowP forked .standard ∅).InventsNone forked ∧
      ∃ map, ((empty 1000).evaluate qBelowP forked .standard ∅).matcher.get? ⟨0⟩ = some map ∧
        ∃ law ∈ forked.laws, law.id = map.law ∧ ∃ set ∈ law.predicateSets,
          ((empty 1000).evaluate qBelowP forked .standard ∅).Draws forked map set := by
  have firm : qBelowP.Firm := firm_letterRelation rfl (by decide +kernel)
  have valid : forked.Valid := Catalog.valid_unchecked rfl rfl rfl
  obtain ⟨-, drawn, none_⟩ := draws_evaluate valid (housed_of_isEmpty rfl) (issued_empty 1000)
    firm.forest.named firm.below .standard ∅ ⟨by decide +kernel, by decide +kernel⟩
  exact ⟨by decide +kernel, none_ anchored_forked, drawn ⟨0⟩ (by decide +kernel)⟩

/-- A p, or a q and an s; then an r between the p and the q. -/
def eitherOf : Catalog := .unchecked ⟨letters, [eitherLaw [[⟨1⟩], [⟨2⟩, ⟨4⟩]] [
  letterNode 1 1 none none, letterNode 2 2 none none, letterNode 3 3 (some ⟨1⟩) (some ⟨2⟩),
  letterNode 4 4 none none]]⟩

/-- For a p alone a q is made, to which the r refers. -/
theorem not_forall_inventsNone : ¬∀ (records : List EntityRecord) (catalog : Catalog)
    (relation : Relation) (maxChecks : Nat) (options : PassOptions)
    (dirty : Std.ExtTreeSet EntityId), Relation.ofRecords records catalog = .ok relation →
      catalog.Valid →
        ((empty maxChecks).evaluate relation catalog options dirty).InventsNone catalog := by
  intro all
  have built : Relation.ofRecords [letterRecord 1 1 none] eitherOf = .ok oneLetter := rfl
  have valid : eitherOf.Valid := Catalog.valid_unchecked rfl rfl rfl
  have none_ := all _ eitherOf oneLetter 1000 .standard ∅ built valid _ List.mem_cons_self ⟨0⟩
  have held : (((empty 1000).evaluate oneLetter eitherOf .standard ∅).matcher.get? ⟨0⟩).map
      (fun map => (map.law, map.entityOf[(⟨2⟩ : LawNodeId)]?)) = some (⟨100⟩, some ⟨2⟩) := by
    decide +kernel
  obtain ⟨map, found, same⟩ := Option.map_eq_some_iff.1 held
  obtain ⟨law, mapped⟩ := Prod.mk.inj same
  have invented := none_ map ⟨2⟩ ⟨2⟩ found law.symm mapped (by decide +kernel)
  revert invented
  decide +kernel

end Matcher

end ConceptLaws
