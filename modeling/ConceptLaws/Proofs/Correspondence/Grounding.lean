import ConceptLaws.Proofs.Correspondence.Branches
import ConceptLaws.Proofs.Correspondence.Deep
import ConceptLaws.Proofs.Correspondence.Matcher
import ConceptLaws.Proofs.Correspondence.Moves
import ConceptLaws.Proofs.Correspondence.Unions

/-! Correspondences stand on entities.
Whatever a deep predicate of a correspondence needs is mapped to an accepted entity that satisfies
it, with the links of the law found again in the relation. Seeds are planned so, a union has all
predicates of its parts, and what a pass adds later takes nothing away. -/

namespace ConceptLaws

theorem LawNode.accepts_of_alike {node : LawNode} {catalog : Catalog} {entity after : Entity}
    (alike : entity.Alike after) (accepted : node.accepts catalog entity = true) :
    node.accepts catalog after = true := by
  unfold accepts at *
  simp only [Bool.and_eq_true, Bool.not_eq_true', alike.concept, alike.value] at *
  exact ⟨⟨⟨alike.accepted accepted.1.1.1, accepted.1.1.2⟩, accepted.1.2⟩, accepted.2⟩

namespace Correspondence

/-- The node is mapped to an entity that satisfies it, and what the node links to is mapped to what
the entity links to: on the sides of the node or, if the concept of the entity is symmetric, on the
exchanged ones. -/
def Fits (map : Correspondence) (catalog : Catalog) (relation : Relation) (id : LawNodeId) : Prop :=
  ∃ node place entity swapped, catalog.lawNode? map.law id = some node ∧
    map.entityOf[id]? = some place ∧ relation.get? place = some entity ∧
    node.accepts catalog entity = true ∧ swapped ∈ catalog.orientations entity.concept ∧
    ∀ side parentNode, node.parent side = some parentNode → ∃ parent,
      entity.parent (side.oriented swapped) = some parent ∧
      map.entityOf[parentNode]? = some parent

/-- A node still fits where what it needs is mapped as before and its entity is kept. -/
theorem Fits.carry {map later : Correspondence} {catalog : Catalog} {relation after : Relation}
    {id : LawNodeId} (fits : map.Fits catalog relation id) (law : later.law = map.law)
    (mapped : ∀ other, catalog.Needs map.law id other → ∀ place,
      map.entityOf[other]? = some place → later.entityOf[other]? = some place)
    (keeps : ∀ place, map.entityOf[id]? = some place → relation.Keeps after place) :
    later.Fits catalog after id := by
  obtain ⟨node, place, entity, swapped, named, holds, found, accepted, allowed, linked⟩ := fits
  obtain ⟨kept, foundKept, alike⟩ := keeps place holds entity found
  refine ⟨node, place, kept, swapped, law ▸ named, mapped id .self place holds, foundKept,
    LawNode.accepts_of_alike alike accepted, alike.concept ▸ allowed, fun side parentNode leads => ?_⟩
  obtain ⟨parent, above, holdsParent⟩ := linked side parentNode leads
  exact ⟨parent, (alike.parent _).trans above,
    mapped parentNode (.above named leads) parent holdsParent⟩

/-- The correspondence is one to one, and all that its deep predicates need fits. -/
structure Grounded (map : Correspondence) (catalog : Catalog) (relation : Relation) : Prop where
  paired : map.Paired
  rooted : ∀ deep ∈ map.deepPredicates, catalog.isPredicate map.law deep = true
  fits : ∀ deep ∈ map.deepPredicates, ∀ id, catalog.Needs map.law deep id →
    map.Fits catalog relation id

variable {map later : Correspondence} {catalog : Catalog} {relation after : Relation}

theorem Grounded.carry (grounded : map.Grounded catalog relation) (grows : map.Grows later)
    (keeps : ∀ (node : LawNodeId) (place : EntityId), map.entityOf[node]? = some place →
      relation.Keeps after place) :
    later.Grounded catalog after where
  paired := grows.paired grounded.paired
  rooted := by
    rw [grows.deepPredicates, grows.law]
    exact grounded.rooted
  fits := by
    rw [grows.deepPredicates, grows.law]
    intro deep built id needs
    exact (grounded.fits deep built id needs).carry grows.law
      (fun other _ place holds => grows.kept other place holds) (keeps id)

theorem Grounded.grow (grounded : map.Grounded catalog relation) (grows : map.Grows later) :
    later.Grounded catalog relation :=
  grounded.carry grows fun _ _ _ => Relation.keeps_of_get? rfl

/-! ## Seeds -/

/-- What the first node of a plan needs is planned. -/
theorem exists_planned {law : LawId} {pair : Pair} {plan : PairPlan}
    (planned : (empty law).plan? relation catalog pair = some plan) {id : LawNodeId}
    (needs : catalog.Needs law pair.node id) : ∃ other ∈ plan, other.node = id := by
  obtain ⟨-, first, backed⟩ := widens_plan planned
  induction needs with
  | self => exact ⟨pair, first, rfl⟩
  | link side _ found leads ih =>
    obtain ⟨other, listed, rfl⟩ := ih
    obtain ⟨-, entity, node, swapped, -, named, -, -, parents⟩ := backed other listed
    obtain rfl := Option.some.inj (found.symm.trans named)
    obtain ⟨parent, -, paired⟩ := parents side _ leads
    exact ⟨_, paired.resolve_right not_has_empty, rfl⟩

theorem grounded_ofPlan {law : LawId} {pair : Pair} {plan : PairPlan}
    (predicate : catalog.isPredicate law pair.node = true)
    (planned : (empty law).plan? relation catalog pair = some plan) :
    (ofPlan law pair.node plan).Grounded catalog relation := by
  obtain ⟨apart, -, backed⟩ := widens_plan planned
  have mapped : ∀ other ∈ plan,
      (ofPlan law pair.node plan).entityOf[other.node]? = some other.entity :=
    entityOf_foldl_record apart (clear_empty law plan)
  have named : (ofPlan law pair.node plan).law = law := law_ofPlan law pair.node plan
  have built : ∀ deep ∈ (ofPlan law pair.node plan).deepPredicates, deep = pair.node := by
    intro deep member
    rw [deepPredicates_ofPlan, Std.ExtTreeSet.mem_insert] at member
    rcases member with same | nothing
    · exact (Std.compare_eq_iff_eq.1 same).symm
    · simp at nothing
  refine ⟨(sound_ofPlan planned).paired, fun deep member => ?_, fun deep member id needs => ?_⟩
  · rw [built deep member, named]
    exact predicate
  · rw [built deep member, named] at needs
    obtain ⟨other, listed, rfl⟩ := exists_planned planned needs
    obtain ⟨-, entity, node, swapped, found, foundNode, accepted, allowed, parents⟩ :=
      backed other listed
    refine ⟨node, other.entity, entity, swapped, ?_, mapped other listed, found, accepted, allowed,
      fun side parentNode leads => ?_⟩
    · rw [named]
      exact foundNode
    obtain ⟨parent, above, paired⟩ := parents side parentNode leads
    exact ⟨parent, above, mapped ⟨parent, parentNode⟩ (paired.resolve_right not_has_empty)⟩

/-! ## Unions -/

/-- A part of a union fits as it did, since the union has its predicates. -/
theorem Grounded.fits_in (valid : catalog.Valid) (grounded : map.Grounded catalog relation)
    (law : later.law = map.law)
    (mapped : ∀ pair ∈ map.predicatePairs catalog, later.entityOf[pair.node]? = some pair.entity)
    {deep id : LawNodeId} (built : deep ∈ map.deepPredicates)
    (needs : catalog.Needs map.law deep id) : later.Fits catalog relation id := by
  refine (grounded.fits deep built id needs).carry law (fun other further place holds => ?_)
    fun _ _ => Relation.keeps_of_get? rfl
  have predicate :=
    valid.isPredicate_of_needs (grounded.rooted deep built) (needs.trans further)
  refine mapped ⟨place, other⟩ (List.mem_filter.2 ⟨mem_pairs.2 ?_, predicate⟩)
  exact (grounded.paired place other).2 holds

theorem grounded_union (valid : catalog.Valid) {matcher : Matcher}
    {left right merged : Correspondence} {fills : Bool}
    (groundedLeft : left.Grounded catalog relation) (groundedRight : right.Grounded catalog relation)
    (unites : matcher.Unites catalog left right merged fills) :
    merged.Grounded catalog relation := by
  have named := unites.law_merged
  have namedRight : merged.law = right.law := named.trans unites.law.symm
  refine ⟨unites.paired_merged, fun deep member => ?_, fun deep member id needs => ?_⟩
  · rcases unites.mem_deepPredicates.1 member with inLeft | inRight
    · rw [named]
      exact groundedLeft.rooted deep inLeft
    · rw [namedRight]
      exact groundedRight.rooted deep inRight
  · rcases unites.mem_deepPredicates.1 member with inLeft | inRight
    · rw [named] at needs
      exact groundedLeft.fits_in valid named
        (fun pair listed => unites.entityOf_merged (List.mem_append_left _ listed)) inLeft needs
    · rw [namedRight] at needs
      exact groundedRight.fits_in valid namedRight
        (fun pair listed => unites.entityOf_merged (List.mem_append_right _ listed)) inRight needs

end Correspondence

/-! ## Passes -/

/-- Correspondences are kept under their identifiers, and stand on the relation. -/
structure Matcher.Grounded (matcher : Matcher) (catalog : Catalog) (relation : Relation) :
    Prop where
  named : ∀ id map, matcher.get? id = some map → map.id = id
  maps : ∀ id map, matcher.get? id = some map → map.Grounded catalog relation

namespace Matcher

variable {matcher later : Matcher} {catalog : Catalog} {relation after : Relation}

theorem grounded_of_maps (grounded : matcher.Grounded catalog relation)
    (maps : later.maps = matcher.maps) : later.Grounded catalog relation := by
  have found : ∀ id, later.get? id = matcher.get? id := by
    intro id
    unfold get?
    rw [maps]
  exact ⟨fun id map held => grounded.named id map (found id ▸ held),
    fun id map held => grounded.maps id map (found id ▸ held)⟩

theorem Grounded.extend (grounded : matcher.Grounded catalog relation)
    (wider : relation.Extends after) : matcher.Grounded catalog after :=
  ⟨grounded.named, fun id map found =>
    (grounded.maps id map found).carry map.grows_refl fun _ place _ => wider.keeps place⟩

theorem Grounded.update (grounded : matcher.Grounded catalog relation) (id : MapId)
    {change : Correspondence → Correspondence}
    (grows : ∀ map : Correspondence, map.Grows (change map)) :
    (matcher.update id change).Grounded catalog relation := by
  have origin : ∀ query later, (matcher.update id change).get? query = some later →
      ∃ map, matcher.get? query = some map ∧ map.Grows later := by
    intro query later found
    rw [get?_update] at found
    split at found
    · obtain ⟨map, before, rfl⟩ := Option.map_eq_some_iff.1 found
      exact ⟨map, before, grows map⟩
    · exact ⟨later, found, later.grows_refl⟩
  constructor
  · intro query later found
    obtain ⟨map, before, grown⟩ := origin query later found
    exact grown.id.trans (grounded.named query map before)
  · intro query later found
    obtain ⟨map, before, grown⟩ := origin query later found
    exact (grounded.maps query map before).grow grown

theorem Grounded.allocate (grounded : matcher.Grounded catalog relation) {map : Correspondence}
    (new : map.Grounded catalog relation) :
    (matcher.allocate map).2.Grounded catalog relation := by
  constructor
  · intro query later found
    rw [get?_allocate] at found
    split at found
    · rename_i same
      obtain rfl := Option.some.inj found
      exact same.symm
    · exact grounded.named query later found
  · intro query later found
    rw [get?_allocate] at found
    split at found
    · obtain rfl := Option.some.inj found
      exact ⟨new.paired, new.rooted, new.fits⟩
    · exact grounded.maps query later found

theorem Grounded.allocateUnion (grounded : matcher.Grounded catalog relation)
    (left right : Correspondence) {merged : Correspondence}
    (new : merged.Grounded catalog relation) :
    (matcher.allocateUnion left right merged).2.Grounded catalog relation :=
  (grounded.allocate new).update _ fun _ =>
    ⟨rfl, rfl, rfl, fun _ _ holds => holds, fun paired => paired⟩

theorem Grounded.spend (grounded : matcher.Grounded catalog relation) {spent : Matcher}
    (paid : matcher.spend? = some spent) : spent.Grounded catalog relation := by
  unfold spend? at paid
  split at paid
  · simp at paid
  obtain rfl := Option.some.inj paid
  exact grounded_of_maps grounded rfl

end Matcher

namespace PassState

/-- The correspondences of a pass stand on its relation. -/
def Grounded (state : PassState) (catalog : Catalog) : Prop :=
  state.matcher.Grounded catalog state.relation

variable {context : PassContext} {state later : PassState} {fresh : Pair → Prop} {catalog : Catalog}

theorem grounded_satisfyAt (state : PassState) (grounded : state.Grounded catalog) (id : MapId) :
    (state.satisfyAt context id).Grounded catalog := by
  unfold satisfyAt
  split
  · exact grounded
  unfold markSatisfied
  split
  · exact grounded
  · exact Matcher.Grounded.update grounded _ fun _ =>
      ⟨rfl, rfl, rfl, fun _ _ holds => holds, fun paired => paired⟩

theorem isPredicate_of_mem_seedPlaces (valid : catalog.Valid) {law : LawId} {node : LawNodeId}
    (place : (law, node) ∈ seedPlaces catalog) : catalog.isPredicate law node = true := by
  obtain ⟨owner, listed, inside⟩ := List.mem_flatMap.1 place
  obtain ⟨deep, member, same⟩ := List.mem_map.1 inside
  obtain ⟨rfl, rfl⟩ := Prod.mk.inj same
  exact Catalog.isPredicate_iff.2 ⟨owner, valid.law? listed, (Law.mem_deepPredicates.1 member).1⟩

/-- A move leaves all correspondences grounded. -/
theorem Move.grounded (move : Move context fresh state later) (valid : context.catalog.Valid)
    (grounded : state.Grounded context.catalog) : later.Grounded context.catalog := by
  cases move with
  | check paid => exact Matcher.Grounded.spend grounded paid
  | seed paid place _ planned =>
    have sown := Correspondence.grounded_ofPlan (isPredicate_of_mem_seedPlaces valid place) planned
    have allocated := (Matcher.Grounded.spend grounded paid).allocate sown
    unfold sow
    dsimp only
    split
    · exact grounded_satisfyAt { state with matcher := _ } allocated _
    · exact allocated
  | @unite spent _ _ left right merged fills paid foundLeft foundRight united =>
    have before := Matcher.Grounded.spend grounded paid
    have union := Correspondence.grounded_union valid (before.maps _ left foundLeft)
      (before.maps _ right foundRight) (Matcher.union?_eq_some.1 united)
    have allocated := before.allocateUnion left right union
    split
    · exact grounded_satisfyAt { state with matcher := _ } allocated _
    · exact allocated
  | branch id node settled =>
    obtain ⟨wider, same | ⟨map, pairs, formulas, -, adopted⟩⟩ :=
      state.appendBranch_cases context id node
    · unfold Grounded
      rw [same]
      exact Matcher.Grounded.extend grounded wider
    · unfold Grounded
      rw [adopted]
      exact (Matcher.Grounded.extend grounded wider).update _ fun map =>
        (map.stays_adopt pairs formulas).toGrows
  | conclude id conclusions =>
    exact Matcher.Grounded.update grounded _ fun _ =>
      ⟨rfl, rfl, rfl, fun _ _ holds => holds, fun paired => paired⟩

theorem Run.grounded (run : Run context fresh state later) (valid : context.catalog.Valid)
    (grounded : state.Grounded context.catalog) : later.Grounded context.catalog := by
  induction run with
  | refl => exact grounded
  | step move _ ih => exact ih (move.grounded valid grounded)

theorem Grounded.visit (grounded : state.Grounded context.catalog) (valid : context.catalog.Valid)
    (tag : String) (entity : EntityId) :
    (state.visit context tag entity).Grounded context.catalog := by
  have noted : (state.noted tag entity).Grounded context.catalog :=
    Matcher.grounded_of_maps grounded rfl
  exact (run_visit context tag state entity).grounded valid noted

theorem grounded_foldl_visit (valid : context.catalog.Valid) (tag : String)
    (entities : List EntityId) : ∀ {state : PassState}, state.Grounded context.catalog →
      (entities.foldl (visit context tag) state).Grounded context.catalog := by
  induction entities with
  | nil => exact fun grounded => grounded
  | cons first rest ih => exact fun grounded => ih (grounded.visit valid tag first)

theorem grounded_rounds (context : PassContext) (valid : context.catalog.Valid) (tag : String)
    (dirty : Std.ExtTreeSet EntityId) (limit : Nat) : ∀ (seen : Std.ExtTreeSet EntityId)
    {state : PassState}, state.Grounded context.catalog →
      (rounds context tag dirty limit seen state).Grounded context.catalog := by
  induction limit with
  | zero => exact fun _ _ grounded => grounded
  | succ limit ih =>
    intro seen state grounded
    unfold rounds
    dsimp only
    split
    · exact grounded
    apply ih
    exact grounded_foldl_visit valid tag _ grounded

end PassState

namespace Matcher

variable {matcher : Matcher} {catalog : Catalog} {relation : Relation}

theorem grounded_of_isEmpty (empty : matcher.maps = ∅) : matcher.Grounded catalog relation := by
  have nothing : ∀ id, matcher.get? id = none := by
    intro id
    unfold get?
    rw [empty]
    exact Std.ExtTreeMap.getElem?_empty
  exact ⟨fun id map found => by simp [nothing] at found,
    fun id map found => by simp [nothing] at found⟩

/-- A pass leaves correspondences that stand on its relation. -/
theorem Grounded.evaluate (grounded : matcher.Grounded catalog relation) (valid : catalog.Valid)
    (options : PassOptions) (dirty : Std.ExtTreeSet EntityId) :
    (matcher.evaluate relation catalog options dirty).Grounded catalog := by
  have fresh : (matcher.prepare options).Grounded catalog relation := by
    unfold prepare
    split
    · exact grounded_of_isEmpty rfl
    · exact grounded_of_maps grounded rfl
  have final : (matcher.passed relation catalog options dirty).Grounded catalog :=
    PassState.grounded_rounds ⟨catalog, options.tentative⟩ valid options.tag dirty _ ∅ fresh
  unfold PassState.Grounded
  rw [matcher_evaluate, relation_evaluate]
  exact Matcher.Grounded.extend final (Relation.extends_recomputeDeep _)

/-- Accepting a correspondence makes no entity tentative. -/
theorem extends_of_setTentative {id : MapId} {later : Matcher} {after : Relation}
    (accepted : matcher.setTentative relation id false = .ok (later, after)) :
    relation.Extends after ∧ later = matcher.update id fun map => { map with tentative := false } := by
  unfold setTentative at accepted
  split at accepted
  · simp at accepted
  rename_i map found
  split at accepted
  · simp at accepted
  obtain ⟨rfl, rfl⟩ := Prod.mk.inj (Except.ok.inj accepted)
  refine ⟨Relation.Extends.trans ?_ (Relation.extends_recomputeDeep _), rfl⟩
  apply Relation.extends_map
  · exact fun query => Std.ExtTreeMap.getElem?_map
  intro entity
  split
  · rename_i claimed
    refine ⟨rfl, rfl, rfl, rfl, rfl, fun _ => List.all_eq_false.2 ⟨id, ?_, ?_⟩⟩
    · simp only [Bool.and_eq_true] at claimed
      exact Std.ExtTreeSet.mem_toList.2 (Std.ExtTreeSet.mem_iff_contains.2 claimed.2)
    · simp [get?_update, found]
  · exact entity.alike_refl

theorem Grounded.accept (grounded : matcher.Grounded catalog relation) {id : MapId}
    {later : Matcher} {after : Relation}
    (accepted : matcher.setTentative relation id false = .ok (later, after)) :
    later.Grounded catalog after := by
  obtain ⟨wider, rfl⟩ := extends_of_setTentative accepted
  exact (grounded.extend wider).update id fun _ =>
    ⟨rfl, rfl, rfl, fun _ _ holds => holds, fun paired => paired⟩

/-! ## Edits -/

/-- The entity occurs in no correspondence. -/
def Avoids (matcher : Matcher) (entity : EntityId) : Prop :=
  ∀ id map, matcher.get? id = some map → map.nodeOf.contains entity = false

/-- An edited entity does no harm where no correspondence has it. -/
theorem Grounded.edit (grounded : matcher.Grounded catalog relation) {after : Relation}
    (keeps : ∀ entity, relation.Keeps after entity ∨ matcher.Avoids entity) :
    matcher.Grounded catalog after := by
  refine ⟨grounded.named, fun id map found => ?_⟩
  have before := grounded.maps id map found
  refine before.carry map.grows_refl fun node place holds => (keeps place).resolve_right ?_
  intro avoids
  have occurs := (before.paired place node).2 holds
  have absent := avoids id map found
  rw [← Bool.not_eq_true, ← Std.ExtTreeMap.mem_iff_contains,
    Std.ExtTreeMap.mem_iff_isSome_getElem?, occurs] at absent
  exact absent rfl

theorem Grounded.get?_of_forgetEntity (grounded : matcher.Grounded catalog relation)
    {entity : EntityId} {id : MapId} {map : Correspondence}
    (found : (matcher.forgetEntity entity).get? id = some map) :
    matcher.get? id = some map ∧ map.nodeOf.contains entity = false := by
  rw [get?_forgetEntity grounded.named] at found
  obtain ⟨before, kept⟩ := Option.filter_eq_some_iff.1 found
  exact ⟨before, by simpa using kept⟩

theorem Grounded.forgetEntity (grounded : matcher.Grounded catalog relation) (entity : EntityId) :
    (matcher.forgetEntity entity).Grounded catalog relation :=
  ⟨fun id map found => grounded.named id map (grounded.get?_of_forgetEntity found).1,
    fun id map found => grounded.maps id map (grounded.get?_of_forgetEntity found).1⟩

theorem Grounded.avoids_forgetEntity (grounded : matcher.Grounded catalog relation)
    (entity : EntityId) : (matcher.forgetEntity entity).Avoids entity :=
  fun _ _ found => (grounded.get?_of_forgetEntity found).2

theorem Grounded.avoids_of_forgetEntity (grounded : matcher.Grounded catalog relation)
    {other : EntityId} (avoids : matcher.Avoids other) (entity : EntityId) :
    (matcher.forgetEntity entity).Avoids other :=
  fun id map found => avoids id map (grounded.get?_of_forgetEntity found).1

theorem Grounded.foldl_forgetEntity (entities : List EntityId) {matcher : Matcher}
    (grounded : matcher.Grounded catalog relation) :
    (entities.foldl Matcher.forgetEntity matcher).Grounded catalog relation ∧
      ∀ entity, entity ∈ entities ∨ matcher.Avoids entity →
        (entities.foldl Matcher.forgetEntity matcher).Avoids entity := by
  induction entities generalizing matcher with
  | nil => exact ⟨grounded, fun entity avoids => avoids.resolve_left (by simp)⟩
  | cons first rest ih =>
    obtain ⟨later, avoidsLater⟩ := ih (grounded.forgetEntity first)
    refine ⟨later, fun entity reason => avoidsLater entity ?_⟩
    rcases reason with listed | avoids
    · rcases List.mem_cons.1 listed with same | listed
      · rw [same]
        exact Or.inr (grounded.avoids_forgetEntity first)
      · exact Or.inl listed
    · exact Or.inr (grounded.avoids_of_forgetEntity avoids first)

end Matcher

end ConceptLaws
