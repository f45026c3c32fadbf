import ConceptLaws.Proofs.Correspondence.Bookkeeping
import ConceptLaws.Proofs.Correspondence.Flags
import ConceptLaws.Proofs.Correspondence.Inferring
import ConceptLaws.Proofs.Correspondence.Interruption
import ConceptLaws.Proofs.Correspondence.Uniqueness

/-! What the registry knows.
A correspondence is registered at the pairs that it has when it is taken in: a seed has what its node
needs, and a union the predicates among what its deep predicates need. These nodes are told apart from
those that conclusions add later, and a correspondence that is open has no others. So the registry is
exact for open correspondences, and for satisfied ones up to what was added to them. -/

namespace ConceptLaws

open PassEvent

namespace Correspondence

/-- The node is one of those from which the correspondence was made. -/
def Founds (map : Correspondence) (catalog : Catalog) (node : LawNodeId) : Prop :=
  (∃ deep ∈ map.deepPredicates, catalog.Needs map.law deep node) ∧
    (map.deepPredicates.size = 1 ∨ catalog.isPredicate map.law node = true)

/-- Whatever is founding is mapped, and while the correspondence is open nothing else. -/
structure Founded (map : Correspondence) (catalog : Catalog) : Prop where
  paired : map.Paired
  built : ∃ node, node ∈ map.deepPredicates
  held : ∀ node, map.Founds catalog node → ∃ entity, map.entityOf[node]? = some entity
  bare : map.satisfied = false → ∀ (node : LawNodeId) (entity : EntityId),
    map.entityOf[node]? = some entity → map.Founds catalog node

variable {map after : Correspondence} {catalog : Catalog}

theorem Grows.founds (grows : map.Grows after) {node : LawNodeId} :
    after.Founds catalog node ↔ map.Founds catalog node := by
  unfold Founds
  rw [grows.deepPredicates, grows.law]

/-- Where something founding is mapped, it was mapped so before. -/
theorem Founded.held_of_grows (founded : map.Founded catalog) (grows : map.Grows after)
    {node : LawNodeId} {entity : EntityId} (founds : map.Founds catalog node)
    (held : after.entityOf[node]? = some entity) : map.entityOf[node]? = some entity := by
  obtain ⟨other, before⟩ := founded.held node founds
  rw [before, ← grows.kept node other before, held]

theorem Founded.grow (founded : map.Founded catalog) (grows : map.Grows after)
    (quiet : after.satisfied = false → map.satisfied = false ∧ after.entityOf = map.entityOf) :
    after.Founded catalog where
  paired := grows.paired founded.paired
  built := grows.deepPredicates ▸ founded.built
  held := fun node founds => by
    obtain ⟨entity, held⟩ := founded.held node (grows.founds.1 founds)
    exact ⟨entity, grows.kept node entity held⟩
  bare := fun open_ node entity held => by
    obtain ⟨before, same⟩ := quiet open_
    exact grows.founds.2 (founded.bare before node entity (same ▸ held))

/-- A seed has pairs for exactly what its node needs. -/
theorem founded_ofPlan {law : LawId} {relation : Relation} {pair : Pair} {plan : PairPlan}
    (planned : (empty law).plan? relation catalog pair = some plan) :
    (ofPlan law pair.node plan).Founded catalog := by
  have seeded := seededAt_ofPlan planned
  obtain ⟨apart, -, -⟩ := widens_plan planned
  have recorded := entityOf_foldl_record apart (clear_empty law plan)
  refine ⟨(sound_ofPlan planned).paired, ⟨_, seeded.member⟩, fun node founds => ?_,
    fun _ node entity held => ⟨slim_ofPlan planned node entity held, .inl seeded.single⟩⟩
  obtain ⟨⟨deep, member, needed⟩, -⟩ := founds
  rw [seeded.node_eq member, law_ofPlan] at needed
  obtain ⟨other, listed, rfl⟩ := exists_planned planned needed
  exact ⟨other.entity, recorded other listed⟩

/-- A union has pairs for exactly the predicates that its deep predicates need. -/
theorem founded_union {matcher : Matcher} {left right merged : Correspondence} {fills : Bool}
    (unites : matcher.Unites catalog left right merged fills) (foundedLeft : left.Founded catalog)
    (foundedRight : right.Founded catalog) : merged.Founded catalog := by
  obtain ⟨first, inLeft⟩ := foundedLeft.built
  obtain ⟨second, inRight⟩ := foundedRight.built
  have several : merged.deepPredicates.size ≠ 1 := by
    intro single
    have same := eq_of_size_eq_one single (unites.mem_deepPredicates.2 (.inl inLeft))
      (unites.mem_deepPredicates.2 (.inr inRight))
    exact unites.apart first inLeft (same ▸ inRight)
  refine ⟨unites.paired_merged, ⟨first, unites.mem_deepPredicates.2 (.inl inLeft)⟩,
    fun node founds => ?_, fun _ node entity held => ?_⟩
  · obtain ⟨⟨deep, member, needs⟩, single | predicate⟩ := founds
    · exact absurd single several
    rw [unites.law_merged] at needs predicate
    rcases unites.mem_deepPredicates.1 member with deepLeft | deepRight
    · obtain ⟨entity, held⟩ := foundedLeft.held node ⟨⟨deep, deepLeft, needs⟩, .inr predicate⟩
      have listed : (⟨entity, node⟩ : Pair) ∈ left.predicatePairs catalog :=
        List.mem_filter.2 ⟨mem_pairs.2 ((foundedLeft.paired _ _).2 held), predicate⟩
      exact ⟨entity, unites.entityOf_merged (List.mem_append_left _ listed)⟩
    · rw [← unites.law] at needs predicate
      obtain ⟨entity, held⟩ := foundedRight.held node ⟨⟨deep, deepRight, needs⟩, .inr predicate⟩
      have listed : (⟨entity, node⟩ : Pair) ∈ right.predicatePairs catalog :=
        List.mem_filter.2 ⟨mem_pairs.2 ((foundedRight.paired _ _).2 held), predicate⟩
      exact ⟨entity, unites.entityOf_merged (List.mem_append_right _ listed)⟩
  · have founding {part : Correspondence} (law : part.law = left.law)
        (founded : part.Founded catalog) (open_ : part.satisfied = false)
        (deeper : ∀ deep ∈ part.deepPredicates, deep ∈ merged.deepPredicates)
        (listed : (⟨entity, node⟩ : Pair) ∈ part.predicatePairs catalog) :
        merged.Founds catalog node := by
      obtain ⟨present, predicate⟩ := List.mem_filter.1 listed
      obtain ⟨⟨deep, member, needs⟩, -⟩ :=
        founded.bare open_ node entity ((founded.paired _ _).1 (mem_pairs.1 present))
      rw [law, ← unites.law_merged] at needs predicate
      exact ⟨⟨deep, deeper deep member, needs⟩, .inr predicate⟩
    rcases List.mem_append.1 (mapped_union unites held) with listed | listed
    · exact founding rfl foundedLeft unites.openLeft
        (fun _ member => unites.mem_deepPredicates.2 (.inl member)) listed
    · exact founding unites.law foundedRight unites.openRight
        (fun _ member => unites.mem_deepPredicates.2 (.inr member)) listed

end Correspondence

namespace Matcher

variable {matcher later : Matcher} {catalog : Catalog} {map : Correspondence}

/-- The registry names the live correspondences at their founding pairs, and at no others. -/
structure Registers (matcher : Matcher) (catalog : Catalog) : Prop where
  named : ∀ id map, matcher.get? id = some map → map.id = id
  issued : ∀ id map, matcher.get? id = some map → id.toNat < matcher.nextMap.toNat
  founded : ∀ id map, matcher.get? id = some map → map.Founded catalog
  exact : ∀ (pair : Pair) (id : MapId), id ∈ matcher.registered pair ↔
    ∃ map, matcher.get? id = some map ∧ map.entityOf[pair.node]? = some pair.entity ∧
      map.Founds catalog pair.node

theorem registers_of_isEmpty (maps : matcher.maps = ∅) (registry : matcher.registry = ∅) :
    matcher.Registers catalog := by
  have nothing (id : MapId) : matcher.get? id = none := by
    unfold get?
    rw [maps]
    exact Std.ExtTreeMap.getElem?_empty
  refine ⟨by simp [nothing], by simp [nothing], by simp [nothing], fun pair id => ?_⟩
  unfold registered
  rw [registry]
  simp [nothing]

theorem Registers.of_maps (registers : matcher.Registers catalog)
    (maps : later.maps = matcher.maps) (registry : later.registry = matcher.registry)
    (next : later.nextMap = matcher.nextMap) : later.Registers catalog := by
  obtain ⟨otherMaps, nextMap, otherRegistry, checked, checks, maxChecks⟩ := later
  obtain rfl : otherMaps = matcher.maps := maps
  obtain rfl : otherRegistry = matcher.registry := registry
  obtain rfl : nextMap = matcher.nextMap := next
  exact ⟨registers.named, registers.issued, registers.founded, registers.exact⟩

/-- Nothing changes for the registry when a correspondence grows that is not open afterwards, or is as
it was. -/
theorem Registers.update (registers : matcher.Registers catalog) (id : MapId)
    {change : Correspondence → Correspondence}
    (grows : ∀ map : Correspondence, map.Grows (change map))
    (quiet : ∀ map, matcher.get? id = some map → (change map).satisfied = false →
      map.satisfied = false ∧ (change map).entityOf = map.entityOf) :
    (matcher.update id change).Registers catalog := by
  have changed (query : MapId) (map : Correspondence) (found : matcher.get? query = some map) :
      ∃ after, (matcher.update id change).get? query = some after ∧ map.Grows after ∧
        after.Founded catalog := by
    have founded := registers.founded query map found
    rw [get?_update, found]
    split
    · rename_i here
      exact ⟨change map, rfl, grows map, founded.grow (grows map) (quiet map (here ▸ found))⟩
    · exact ⟨map, rfl, map.grows_refl, founded⟩
  have origin (query : MapId) (after : Correspondence)
      (found : (matcher.update id change).get? query = some after) :
      ∃ map, matcher.get? query = some map ∧ map.Grows after ∧ after.Founded catalog := by
    cases before : matcher.get? query with
    | none =>
      rw [get?_update, before] at found
      split at found
      · cases found
      · cases found
    | some map =>
      obtain ⟨other, foundOther, grown, founded⟩ := changed query map before
      obtain rfl := Option.some.inj (found.symm.trans foundOther)
      exact ⟨map, rfl, grown, founded⟩
  refine ⟨fun query after found => ?_, fun query after found => ?_, fun query after found => ?_,
    fun pair query => (registers.exact pair query).trans ⟨fun there => ?_, fun there => ?_⟩⟩
  · obtain ⟨map, before, grown, -⟩ := origin query after found
    exact grown.id.trans (registers.named query map before)
  · obtain ⟨map, before, -⟩ := origin query after found
    exact registers.issued query map before
  · obtain ⟨-, -, -, founded⟩ := origin query after found
    exact founded
  · obtain ⟨map, found, held, founds⟩ := there
    obtain ⟨after, foundAfter, grown, -⟩ := changed query map found
    exact ⟨after, foundAfter, grown.kept _ _ held, grown.founds.2 founds⟩
  · obtain ⟨after, found, held, founds⟩ := there
    obtain ⟨map, before, grown, -⟩ := origin query after found
    have foundsBefore := grown.founds.1 founds
    exact ⟨map, before,
      (registers.founded query map before).held_of_grows grown foundsBefore held, foundsBefore⟩

theorem Registers.fresh (registers : matcher.Registers catalog) :
    matcher.get? matcher.nextMap = none := by
  cases found : matcher.get? matcher.nextMap with
  | none => rfl
  | some map => exact absurd (registers.issued _ map found) (Nat.lt_irrefl _)

/-- What is taken in while it is open is registered at all its pairs. -/
theorem Registers.allocate (registers : matcher.Registers catalog) (founded : map.Founded catalog)
    (open_ : map.satisfied = false) (room : matcher.nextMap.toNat + 1 < UInt64.size) :
    (matcher.allocate map).2.Registers catalog := by
  have next : (matcher.allocate map).2.nextMap.toNat = matcher.nextMap.toNat + 1 := toNat_next room
  have taken : (matcher.taken map).Founded catalog :=
    ⟨founded.paired, founded.built, founded.held, founded.bare⟩
  have cases_ (query : MapId) (after : Correspondence) :
      (matcher.allocate map).2.get? query = some after ↔
        (query = matcher.nextMap ∧ after = matcher.taken map) ∨ matcher.get? query = some after := by
    rw [get?_allocate]
    split
    · rename_i here
      simp [here, registers.fresh, eq_comm]
    · rename_i elsewhere
      simp [elsewhere]
  refine ⟨fun query after found => ?_, fun query after found => ?_, fun query after found => ?_,
    fun pair query => ?_⟩
  · rcases (cases_ query after).1 found with ⟨rfl, rfl⟩ | before
    · rfl
    · exact registers.named query after before
  · rcases (cases_ query after).1 found with ⟨rfl, rfl⟩ | before
    · omega
    · exact (registers.issued query after before).trans (by omega)
  · rcases (cases_ query after).1 found with ⟨rfl, rfl⟩ | before
    · exact taken
    · exact registers.founded query after before
  · rw [mem_registered_allocate, registers.exact]
    constructor
    · intro listed
      rcases listed with ⟨after, found, there⟩ | ⟨rfl, present⟩
      · exact ⟨after, (cases_ query after).2 (.inr found), there⟩
      · have held := (founded.paired _ _).1 (Correspondence.mem_pairs.1 present)
        exact ⟨_, (cases_ _ _).2 (.inl ⟨rfl, rfl⟩), held, founded.bare open_ _ _ held⟩
    · intro there
      obtain ⟨after, found, held, founds⟩ := there
      rcases (cases_ query after).1 found with ⟨rfl, rfl⟩ | before
      · exact .inr ⟨rfl, Correspondence.mem_pairs.2 ((founded.paired _ _).2 held)⟩
      · exact .inl ⟨after, before, held, founds⟩

/-- A dropped correspondence leaves nothing in the registry. -/
theorem Registers.forgetEntity (registers : matcher.Registers catalog) (entity : EntityId) :
    (matcher.forgetEntity entity).Registers catalog := by
  have kept (query : MapId) (after : Correspondence) :
      (matcher.forgetEntity entity).get? query = some after ↔
        matcher.get? query = some after ∧ after.nodeOf.contains entity = false := by
    rw [get?_forgetEntity registers.named, Option.filter_eq_some_iff, Bool.not_eq_true']
  refine ⟨fun query after found => registers.named query after ((kept query after).1 found).1,
    fun query after found => ?_,
    fun query after found => registers.founded query after ((kept query after).1 found).1,
    fun pair query => ?_⟩
  · rw [nextMap_forgetEntity]
    exact registers.issued query after ((kept query after).1 found).1
  · rw [mem_registered_forgetEntity, registers.exact]
    constructor
    · intro listed
      obtain ⟨⟨map, found, held, founds⟩, unscathed⟩ := listed
      refine ⟨map, (kept query map).2 ⟨found, Bool.eq_false_iff.2 fun occurs => ?_⟩, held, founds⟩
      have present := Correspondence.mem_pairs.2
        (((registers.founded query map found).paired _ _).2 held)
      exact unscathed map (mem_toList.2 ⟨query, found⟩) occurs
        ⟨(registers.named query map found).symm, present⟩
    · intro there
      obtain ⟨map, found, held, founds⟩ := there
      obtain ⟨before, absent⟩ := (kept query map).1 found
      refine ⟨⟨map, before, held, founds⟩, fun other listed occurs same => ?_⟩
      obtain ⟨key, foundOther⟩ := mem_toList.1 listed
      obtain rfl : query = key := same.1.trans (registers.named key other foundOther)
      obtain rfl := Option.some.inj (before.symm.trans foundOther)
      rw [absent] at occurs
      cases occurs

theorem Registers.sow (registers : matcher.Registers catalog) {relation : Relation} {law : LawId}
    {pair : Pair} {plan : PairPlan}
    (planned : (Correspondence.empty law).plan? relation catalog pair = some plan)
    (room : matcher.nextMap.toNat + 1 < UInt64.size) :
    (matcher.allocate (.ofPlan law pair.node plan)).2.Registers catalog :=
  registers.allocate (Correspondence.founded_ofPlan planned)
    (Correspondence.satisfied_ofPlan law pair.node plan) room

theorem Registers.allocateUnion (registers : matcher.Registers catalog) {leftId rightId : MapId}
    {left right merged : Correspondence} {fills : Bool}
    (foundLeft : matcher.get? leftId = some left) (foundRight : matcher.get? rightId = some right)
    (unites : matcher.Unites catalog left right merged fills)
    (room : matcher.nextMap.toNat + 1 < UInt64.size) :
    (matcher.allocateUnion left right merged).2.Registers catalog :=
  (registers.allocate (Correspondence.founded_union unites (registers.founded _ _ foundLeft)
    (registers.founded _ _ foundRight)) unites.satisfied_merged room).update _
      (fun _ => ⟨rfl, rfl, rfl, fun _ _ held => held, fun paired => paired⟩)
      fun _ _ open_ => ⟨open_, rfl⟩

end Matcher

/-! ## Acts -/

namespace PassState

variable {context : PassContext} {state later : PassState} {events : List PassEvent}

theorem Act.registers (act : Act context state events later)
    (registers : state.matcher.Registers context.catalog)
    (room : state.matcher.nextMap.toNat + (madeBy events).length < UInt64.size) :
    later.matcher.Registers context.catalog := by
  cases act with
  | note tag entity => exact registers.of_maps rfl rfl rfl
  | spend paid =>
    obtain ⟨-, rfl⟩ := Matcher.spend?_eq_some paid
    exact registers.of_maps rfl rfl rfl
  | sow planned place unseeded => exact registers.sow planned room
  | unite foundLeft foundRight united =>
    exact registers.allocateUnion foundLeft foundRight (Matcher.union?_eq_some.1 united) room
  | satisfy found =>
    unfold markSatisfied
    split
    · exact registers
    · exact registers.update _
        (fun _ => ⟨rfl, rfl, rfl, fun _ _ held => held, fun paired => paired⟩)
        fun _ _ open_ => by cases open_
  | branch id node settled =>
    obtain ⟨-, same | ⟨map, pairs, formulas, found, adopted⟩⟩ :=
      state.appendBranch_cases context id node
    · rwa [same]
    · rw [adopted]
      have named := registers.named id map found
      refine registers.update _ (fun map => (map.stays_adopt pairs formulas).toGrows)
        fun other foundOther open_ => ?_
      rw [named] at foundOther
      have satisfied := settled other foundOther (registers.named id other foundOther)
      rw [(other.stays_adopt pairs formulas).satisfied, satisfied] at open_
      cases open_
  | conclude id conclusions =>
    exact registers.update _
      (fun _ => ⟨rfl, rfl, rfl, fun _ _ held => held, fun paired => paired⟩)
      fun _ _ open_ => ⟨open_, rfl⟩

/-- By induction on the acts, which take one identifier after the other. -/
theorem Acts.registers (acts : Acts context state events later)
    (registers : state.matcher.Registers context.catalog)
    (room : state.matcher.nextMap.toNat + (madeBy events).length < UInt64.size) :
    later.matcher.Registers context.catalog ∧
      later.matcher.nextMap.toNat = state.matcher.nextMap.toNat + (madeBy events).length := by
  induction acts with
  | refl => exact ⟨registers, rfl⟩
  | step act _ ih =>
    rw [madeBy_append, List.length_append] at room ⊢
    have next := act.toNat_nextMap (by omega)
    obtain ⟨last, final⟩ := ih (act.registers registers (by omega)) (by omega)
    exact ⟨last, by omega⟩

end PassState

namespace Matcher

/-- A matcher after it was used under a catalog, with the events since it was new or reset last. The
relations, and what a pass has brought so far, are arbitrary. -/
inductive Served : Catalog → List PassEvent → Matcher → Prop
  | new (catalog : Catalog) (maxChecks : Nat) : Served catalog [] (empty maxChecks)
  | evaluate {catalog : Catalog} {events : List PassEvent} {matcher : Matcher}
      (served : Served catalog events matcher) (relation : Relation) {options : PassOptions}
      (dirty : Std.ExtTreeSet EntityId) (kept : options.reset = false) :
      Served catalog (events ++ matcher.evaluateEvents relation catalog options dirty)
        (matcher.evaluate relation catalog options dirty).matcher
  | evaluateAnew {catalog : Catalog} {events : List PassEvent} {matcher : Matcher}
      (served : Served catalog events matcher) (other : Catalog) (relation : Relation)
      {options : PassOptions} (dirty : Std.ExtTreeSet EntityId) (reset : options.reset = true) :
      Served other (matcher.evaluateEvents relation other options dirty)
        (matcher.evaluate relation other options dirty).matcher
  | seed {catalog : Catalog} {events : List PassEvent} {matcher : Matcher}
      (served : Served catalog events matcher) (relation : Relation) (law : LawId) (pair : Pair) :
      Served catalog
        (events ++ (matcher.seed relation catalog law pair).1.toList.map PassEvent.made)
        (matcher.seed relation catalog law pair).2
  | checkEntity {catalog : Catalog} {events : List PassEvent} {matcher : Matcher}
      (served : Served catalog events matcher) (tentative : Bool) (relation : Relation)
      (outcome : Outcome) (entity : EntityId) :
      Served catalog (events ++ ofLoop (PassState.checkSeed ⟨catalog, tentative⟩ entity)
          (PassState.checkSeedEvents ⟨catalog, tentative⟩ entity) (PassState.seedPlaces catalog)
          ([], ⟨matcher, relation, outcome⟩))
        (PassState.checkEntity ⟨catalog, tentative⟩ ⟨matcher, relation, outcome⟩ entity).2.matcher
  | checkIntersections {catalog : Catalog} {events : List PassEvent} {matcher : Matcher}
      (served : Served catalog events matcher) (tentative : Bool) (relation : Relation)
      (outcome : Outcome) (id : MapId) :
      Served catalog (events ++ PassState.mergeAllEvents ⟨catalog, tentative⟩ matcher.budget
          ⟨matcher, relation, outcome⟩ id)
        (PassState.checkIntersections ⟨catalog, tentative⟩ ⟨matcher, relation, outcome⟩ id).matcher
  | checkIntersection {catalog : Catalog} {events : List PassEvent} {matcher : Matcher}
      (served : Served catalog events matcher) (tentative : Bool) (relation : Relation)
      (outcome : Outcome) (left right : MapId) :
      Served catalog (events ++ PassState.mergeWithEvents ⟨catalog, tentative⟩
          (fun state id => PassState.mergeAllEvents ⟨catalog, tentative⟩ state.matcher.budget state
            id) ⟨matcher, relation, outcome⟩ left right)
        (PassState.checkIntersection ⟨catalog, tentative⟩ ⟨matcher, relation, outcome⟩ left
          right).2.matcher
  | append {catalog : Catalog} {events : List PassEvent} {matcher : Matcher}
      (served : Served catalog events matcher) (tentative : Bool) (relation : Relation)
      (outcome : Outcome) (id : MapId) :
      Served catalog
        (events ++ PassState.appendEvents ⟨catalog, tentative⟩ ⟨matcher, relation, outcome⟩ id)
        (PassState.append ⟨catalog, tentative⟩ ⟨matcher, relation, outcome⟩ id).2.matcher
  | setTentative {catalog : Catalog} {events : List PassEvent} {matcher later : Matcher}
      (served : Served catalog events matcher) {relation after : Relation} {id : MapId}
      {tentative : Bool}
      (done : matcher.setTentative relation id tentative = .ok (later, after)) :
      Served catalog events later
  | forgetEntity {catalog : Catalog} {events : List PassEvent} {matcher : Matcher}
      (served : Served catalog events matcher) (entity : EntityId) :
      Served catalog events (matcher.forgetEntity entity)
  | reset {catalog : Catalog} {events : List PassEvent} {matcher : Matcher}
      (served : Served catalog events matcher) (other : Catalog) : Served other [] matcher.reset

variable {matcher : Matcher} {catalog : Catalog} {events : List PassEvent}

/-- By induction on the uses: those that make correspondences are acts of passes. -/
theorem Served.registers (served : Served catalog events matcher) :
    (madeBy events).length < UInt64.size →
      matcher.Registers catalog ∧ matcher.nextMap.toNat = (madeBy events).length := by
  have acts {catalog : Catalog} {tentative : Bool} {earlier more : List PassEvent}
      {state later : PassState} (run : PassState.Acts ⟨catalog, tentative⟩ state more later)
      (before : (madeBy earlier).length < UInt64.size →
        state.matcher.Registers catalog ∧ state.matcher.nextMap.toNat = (madeBy earlier).length)
      (few : (madeBy (earlier ++ more)).length < UInt64.size) :
      later.matcher.Registers catalog ∧
        later.matcher.nextMap.toNat = (madeBy (earlier ++ more)).length := by
    rw [madeBy_append, List.length_append] at few ⊢
    obtain ⟨registers, next⟩ := before (by omega)
    rw [← next] at few ⊢
    exact run.registers registers few
  induction served with
  | new catalog maxChecks => exact fun _ => ⟨registers_of_isEmpty rfl rfl, rfl⟩
  | @evaluate catalog events matcher _ relation options dirty kept ih =>
    have passed := matcher.acts_passed relation catalog options dirty
    have same : (matcher.prepare options).maps = matcher.maps ∧
        (matcher.prepare options).registry = matcher.registry ∧
        (matcher.prepare options).nextMap = matcher.nextMap := by
      unfold prepare
      rw [kept]
      exact ⟨rfl, rfl, rfl⟩
    intro few
    rw [matcher_evaluate]
    refine acts passed (fun before => ?_) few
    obtain ⟨registers, next⟩ := ih before
    exact ⟨registers.of_maps same.1 same.2.1 same.2.2, same.2.2 ▸ next⟩
  | @evaluateAnew catalog events matcher _ other relation options dirty reset ih =>
    have start : (matcher.prepare options).Registers other ∧ (matcher.prepare options).nextMap.toNat =
        (madeBy []).length := by
      unfold prepare
      rw [reset]
      exact ⟨registers_of_isEmpty rfl rfl, rfl⟩
    have passed := matcher.acts_passed relation other options dirty
    intro few
    rw [matcher_evaluate]
    exact acts passed (fun _ => start) few
  | @seed catalog events matcher _ relation law pair ih =>
    intro few
    rw [madeBy_append, List.length_append] at few ⊢
    obtain ⟨registers, next⟩ := ih (by omega)
    cases seeded : matcher.seed relation catalog law pair with
    | mk outcome later =>
      rw [seeded] at few
      cases outcome with
      | none =>
        obtain ⟨-, rfl⟩ := seed_eq_none seeded
        exact ⟨registers, next⟩
      | some id =>
        obtain ⟨plan, planned, rfl, rfl⟩ := seed_eq_some seeded
        have room : matcher.nextMap.toNat + 1 < UInt64.size := by
          rw [next]
          exact few
        refine ⟨registers.sow planned room, ?_⟩
        rw [← next]
        exact toNat_next room
  | checkEntity _ tentative relation outcome entity ih =>
    exact acts (PassState.acts_checkEntity _ _ entity) ih
  | checkIntersections _ tentative relation outcome id ih =>
    exact acts (PassState.acts_mergeAll _ _ _ id) ih
  | checkIntersection _ tentative relation outcome left right ih =>
    exact acts (PassState.acts_mergeWith
      (fun state id => PassState.acts_mergeAll _ state.matcher.budget state id) _ left right) ih
  | append _ tentative relation outcome id ih => exact acts (PassState.acts_append _ _ id) ih
  | setTentative _ done ih =>
    intro few
    obtain ⟨registers, next⟩ := ih few
    obtain ⟨rfl, -⟩ := setTentative_eq_ok done
    exact ⟨registers.update _
      (fun _ => ⟨rfl, rfl, rfl, fun _ _ held => held, fun paired => paired⟩)
      fun _ _ open_ => ⟨open_, rfl⟩, next⟩
  | forgetEntity _ entity ih =>
    intro few
    obtain ⟨registers, next⟩ := ih few
    exact ⟨registers.forgetEntity entity, (congrArg _ (nextMap_forgetEntity _ entity)).trans next⟩
  | reset => exact fun _ => ⟨registers_of_isEmpty rfl rfl, rfl⟩

/-- As long as the identifiers last, exactly those live correspondences are listed at a pair that have
it from the time when they were made: at every pair that an open one has, and at every pair of a
satisfied one whose node its deep predicates need, if it is a predicate or the only one of them. -/
theorem Served.mem_mapsAt_iff (served : Served catalog events matcher)
    (few : (madeBy events).length < UInt64.size) (id : MapId) (pair : Pair) :
    (id ∈ matcher.mapsAt pair ↔ ∃ map, matcher.get? id = some map ∧
      map.nodeOf[pair.entity]? = some pair.node ∧ map.Founds catalog pair.node) ∧
    (∀ map, matcher.get? id = some map → map.satisfied = false →
      (id ∈ matcher.mapsAt pair ↔ map.nodeOf[pair.entity]? = some pair.node)) := by
  obtain ⟨registers, -⟩ := served.registers few
  have exact_ : id ∈ matcher.mapsAt pair ↔ ∃ map, matcher.get? id = some map ∧
      map.nodeOf[pair.entity]? = some pair.node ∧ map.Founds catalog pair.node := by
    unfold mapsAt
    rw [Std.ExtTreeSet.mem_toList, registers.exact]
    refine exists_congr fun map => and_congr_right fun found => and_congr_left fun _ => ?_
    exact ((registers.founded id map found).paired _ _).symm
  refine ⟨exact_, fun map found open_ => exact_.trans ⟨fun there => ?_, fun held => ?_⟩⟩
  · obtain ⟨other, foundOther, held, -⟩ := there
    rwa [Option.some.inj (found.symm.trans foundOther)]
  · have founded := registers.founded id map found
    exact ⟨map, found, held, founded.bare open_ _ _ ((founded.paired _ _).1 held)⟩

/-- A pass over one p, from which an r follows below it. -/
def servedBelow : Matcher := ((empty 10).evaluate oneLetter below .standard ∅).matcher

theorem served_servedBelow :
    Served below ([] ++ (empty 10).evaluateEvents oneLetter below .standard ∅) servedBelow :=
  .evaluate (.new below 10) oneLetter ∅ rfl

theorem few_servedBelow : (madeBy ([] ++ (empty 10).evaluateEvents oneLetter below .standard
    ∅)).length < UInt64.size := by decide +kernel

/-- The p stands for a founding node and is registered; the r does not. -/
theorem mem_mapsAt_iff_servedBelow : ∃ map, servedBelow.get? ⟨0⟩ = some map ∧
    (⟨0⟩ ∈ servedBelow.mapsAt ⟨⟨1⟩, ⟨1⟩⟩ ∧ map.Founds below ⟨1⟩) ∧
    (map.nodeOf[(⟨2⟩ : EntityId)]? = some ⟨3⟩ ∧ ¬map.Founds below ⟨3⟩) := by
  have listed : ⟨0⟩ ∈ servedBelow.mapsAt ⟨⟨1⟩, ⟨1⟩⟩ := by decide +kernel
  have unlisted : ⟨0⟩ ∉ servedBelow.mapsAt ⟨⟨2⟩, ⟨3⟩⟩ := by decide +kernel
  obtain ⟨map, found, -, founds⟩ := (served_servedBelow.mem_mapsAt_iff few_servedBelow _ _).1.1 listed
  have mapped : (servedBelow.get? ⟨0⟩).map (fun map => map.nodeOf[(⟨2⟩ : EntityId)]?) =
      some (some ⟨3⟩) := by decide +kernel
  rw [found] at mapped
  have held := Option.some.inj mapped
  refine ⟨map, found, ⟨listed, founds⟩, held, fun stray => unlisted ?_⟩
  exact (served_servedBelow.mem_mapsAt_iff few_servedBelow _ _).1.2 ⟨map, found, held, stray⟩

/-- What a conclusion adds to a correspondence is not registered. -/
theorem not_forall_mem_mapsAt_iff : ¬∀ (catalog : Catalog) (events : List PassEvent)
    (matcher : Matcher) (id : MapId) (pair : Pair), Served catalog events matcher →
      (madeBy events).length < UInt64.size →
        (id ∈ matcher.mapsAt pair ↔
          ∃ map, matcher.get? id = some map ∧ map.nodeOf[pair.entity]? = some pair.node) := by
  intro all
  have exact_ := all _ _ _ ⟨0⟩ ⟨⟨2⟩, ⟨3⟩⟩ served_servedBelow few_servedBelow
  have mapped : (servedBelow.get? ⟨0⟩).map (fun map => map.nodeOf[(⟨2⟩ : EntityId)]?) =
      some (some ⟨3⟩) := by decide +kernel
  obtain ⟨map, found, held⟩ := Option.map_eq_some_iff.1 mapped
  exact absurd (exact_.2 ⟨map, found, held⟩) (by decide +kernel)

end Matcher

end ConceptLaws
