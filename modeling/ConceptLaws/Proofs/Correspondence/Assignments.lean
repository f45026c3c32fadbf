import ConceptLaws.Proofs.Correspondence.Deep
import ConceptLaws.Proofs.Correspondence.Grounding

/-! Assignments.
An assignment places the predicates of a law at accepted entities, one to one, with the links of the
law found again in the relation. Whatever an assignment places can be planned, and what stands on
the relation and agrees with an assignment at deep predicates agrees with it at all they need. -/

namespace ConceptLaws

/-- The predicates of the law are placed at different accepted entities that satisfy them, and the
links between predicates are those between the entities. -/
structure Law.Places (law : Law) (catalog : Catalog) (relation : Relation)
    (place : LawNodeId → EntityId) : Prop where
  injective : ∀ first second, law.isPredicate first = true → law.isPredicate second = true →
    place first = place second → first = second
  fits : ∀ id, law.isPredicate id = true → ∃ node entity, law.node? id = some node ∧
    relation.get? (place id) = some entity ∧ node.accepts catalog entity = true ∧
    ∀ side parent, node.parent side = some parent → entity.parent side = some (place parent)

/-- No concept is symmetric. -/
def Catalog.Asymmetric (catalog : Catalog) : Prop :=
  ∀ concept ∈ catalog.concepts, concept.symmetric = false

theorem Catalog.Asymmetric.orientations {catalog : Catalog} (plain : catalog.Asymmetric)
    (concept : ConceptId) : catalog.orientations concept = [false] := by
  unfold Catalog.orientations
  cases found : catalog.concept? concept with
  | none => rfl
  | some known =>
    have symmetric := plain known (List.mem_of_find?_eq_some found)
    simp [symmetric]

/-- An assignment lasts as long as its entities. -/
theorem Law.Places.extend {law : Law} {catalog : Catalog} {relation later : Relation}
    {place : LawNodeId → EntityId} (places : law.Places catalog relation place)
    (wider : relation.Extends later) : law.Places catalog later place := by
  refine ⟨places.injective, fun id predicate => ?_⟩
  obtain ⟨node, entity, named, found, accepted, links⟩ := places.fits id predicate
  obtain ⟨after, foundAfter, alike⟩ := wider.keeps (place id) entity found
  refine ⟨node, after, named, foundAfter, LawNode.accepts_of_alike alike accepted, ?_⟩
  intro side parent leads
  exact (alike.parent side).trans (links side parent leads)

/-- A pair of the assignment. -/
def placed (place : LawNodeId → EntityId) (id : LawNodeId) : Pair := ⟨place id, id⟩

/-- All pairs are pairs of the assignment. -/
def PairPlan.Follows (plan : PairPlan) (law : Law) (place : LawNodeId → EntityId) : Prop :=
  ∀ pair ∈ plan, law.isPredicate pair.node = true ∧ pair.entity = place pair.node

/-- A pair is in no conflict with pairs that it shares neither its entity nor its node with. -/
theorem PairPlan.admission_ne_conflict {pair : Pair} {plan : PairPlan}
    (apart : ∀ planned ∈ plan, planned.entity = pair.entity ∨ planned.node = pair.node →
      planned = pair) : PairPlan.admission pair plan ≠ .conflict := by
  induction plan with
  | nil => simp [admission]
  | cons first rest ih =>
    unfold admission
    split
    · simp
    · rename_i different
      split
      · rename_i shared
        exact (different (apart first List.mem_cons_self (by simpa using shared))).elim
      · exact ih fun planned member => apart planned (List.mem_cons_of_mem first member)

namespace Law.Places

variable {law : Law} {catalog : Catalog} {relation : Relation} {place : LawNodeId → EntityId}

theorem admission_ne_conflict (places : law.Places catalog relation place) {plan : PairPlan}
    (follows : plan.Follows law place) {id : LawNodeId} (predicate : law.isPredicate id = true) :
    PairPlan.admission (placed place id) plan ≠ .conflict := by
  refine PairPlan.admission_ne_conflict fun planned member shared => ?_
  obtain ⟨known, same⟩ := follows planned member
  have node : planned.node = id := by
    rcases shared with entity | node
    · exact places.injective planned.node id known predicate (same.symm.trans entity)
    · exact node
  obtain ⟨entity, node'⟩ := planned
  obtain rfl : node' = id := node
  obtain rfl : entity = place node' := same
  rfl

/-- The parent on a side is planned if `planPair` plans what is placed there. -/
theorem exists_planSide {planPair : PairPlan → Pair → Option PairPlan} {entity : Entity}
    {node : LawNode} {side : Side}
    (links : ∀ parent, node.parent side = some parent → entity.parent side = some (place parent))
    (plans : ∀ parent, node.parent side = some parent → ∀ plan : PairPlan,
      plan.Follows law place → ∃ later : PairPlan,
        planPair plan (placed place parent) = some later ∧ later.Follows law place)
    {plan : PairPlan} (follows : plan.Follows law place) : ∃ later : PairPlan,
      Correspondence.planSide planPair entity node false plan side = some later ∧
        later.Follows law place := by
  unfold Correspondence.planSide
  cases leads : node.parent side with
  | none => exact ⟨plan, rfl, follows⟩
  | some parent =>
    have above : entity.parent (side.oriented false) = some (place parent) := links parent leads
    dsimp only
    rw [above]
    exact plans parent leads plan follows

/-- Whatever is placed can be planned: no pair of an assignment is in conflict with another one, and
links end before the depth does. -/
theorem exists_planPair (places : law.Places catalog relation place) (valid : catalog.Valid)
    (plain : catalog.Asymmetric) (listed : law ∈ catalog.laws) (depth : Nat) :
    ∀ {plan : PairPlan} {id : LawNodeId}, plan.Follows law place → law.isPredicate id = true →
      law.walk depth [id] = [] → ∃ later : PairPlan,
        (Correspondence.empty law.id).planPair relation catalog depth plan (placed place id) =
          some later ∧ later.Follows law place := by
  induction depth with
  | zero =>
    intro plan id _ _ ends
    simp [Law.walk] at ends
  | succ depth ih =>
    intro plan id follows predicate ends
    have admits : (Correspondence.empty law.id).admits plan (placed place id) =
        PairPlan.admission (placed place id) plan := by
      simp [Correspondence.admits, Correspondence.admission, Correspondence.empty]
    have fits := places.admission_ne_conflict follows predicate
    unfold Correspondence.planPair
    rw [admits]
    cases admission : PairPlan.admission (placed place id) plan with
    | conflict => exact (fits admission).elim
    | present => exact ⟨plan, rfl, follows⟩
    | free =>
      obtain ⟨node, entity, named, found, accepted, links⟩ := places.fits id predicate
      have namedToo : catalog.lawNode? law.id id = some node :=
        (valid.lawNode?_eq listed id).trans named
      have here : relation.get? (placed place id).entity = some entity := found
      have below : catalog.lawNode? (Correspondence.empty law.id).law (placed place id).node =
          some node := namedToo
      have plans : ∀ side parent, node.parent side = some parent → ∀ plan : PairPlan,
          plan.Follows law place → ∃ later : PairPlan,
            (Correspondence.empty law.id).planPair relation catalog depth plan
              (placed place parent) = some later ∧ later.Follows law place := by
        intro side parent leads plan follows
        have shorter : law.walk depth [parent] ⊆ law.walk (depth + 1) [id] :=
          Law.walk_above_subset depth named (LawNode.mem_parents.2 ⟨side, leads⟩)
        rw [ends] at shorter
        refine ih follows ?_ (List.subset_nil.1 shorter)
        rw [← valid.isPredicate_eq listed] at predicate ⊢
        exact valid.isPredicate_parent predicate namedToo leads
      have start : (plan ++ [placed place id]).Follows law place := by
        intro pair member
        rcases List.mem_append.1 member with before | last
        · exact follows pair before
        · rw [List.mem_singleton.1 last]
          exact ⟨predicate, rfl⟩
      obtain ⟨first, head, followsFirst⟩ := exists_planSide (links .head) (plans .head) start
      obtain ⟨second, reference, followsSecond⟩ :=
        exists_planSide (links .reference) (plans .reference) followsFirst
      refine ⟨second, ?_, followsSecond⟩
      have parents : Correspondence.planParents
          ((Correspondence.empty law.id).planPair relation catalog depth) entity node false
            (plan ++ [placed place id]) = some second := by
        rw [Correspondence.planParents_eq]
        simp [Side.both, head, reference]
      rw [here, below]
      dsimp only
      rw [if_pos accepted, plain.orientations]
      simp only [List.findSome?_cons, parents]

theorem exists_plan (places : law.Places catalog relation place) (valid : catalog.Valid)
    (plain : catalog.Asymmetric) (listed : law ∈ catalog.laws) {id : LawNodeId}
    (predicate : law.isPredicate id = true) : ∃ plan,
      (Correspondence.empty law.id).plan? relation catalog (placed place id) = some plan := by
  obtain ⟨node, _, named, -⟩ := places.fits id predicate
  obtain ⟨member, same⟩ := Law.node?_eq_some named
  have ends := (valid.distinct.valid law listed).acyclic node member
  rw [same] at ends
  have depth : (Correspondence.empty law.id).planDepth catalog = law.nodes.length + 1 := by
    simp [Correspondence.planDepth, Correspondence.empty, valid.law? listed]
  unfold Correspondence.plan?
  rw [depth]
  obtain ⟨plan, planned, -⟩ := places.exists_planPair valid plain listed _
    (fun _ member => by simp at member : PairPlan.Follows [] law place) predicate ends
  exact ⟨plan, planned⟩

/-- What a node needs is placed where the correspondence has it. -/
theorem entityOf_of_needs (places : law.Places catalog relation place) (valid : catalog.Valid)
    (plain : catalog.Asymmetric) (listed : law ∈ catalog.laws) {map : Correspondence}
    (grounded : map.Grounded catalog relation) (same : map.law = law.id) {deep id : LawNodeId}
    (built : deep ∈ map.deepPredicates) (anchored : map.entityOf[deep]? = some (place deep))
    (needs : catalog.Needs law.id deep id) : map.entityOf[id]? = some (place id) := by
  induction needs with
  | self => exact anchored
  | @link middle parent lawNode side needed found leads ih =>
    obtain ⟨node, spot, entity, swapped, named, holds, present, -, allowed, linked⟩ :=
      grounded.fits deep built middle (same ▸ needed)
    rw [same, found] at named
    obtain rfl := Option.some.inj named
    obtain rfl := Option.some.inj (ih.symm.trans holds)
    rw [plain.orientations, List.mem_singleton] at allowed
    obtain ⟨above, leadsTo, holdsAbove⟩ := linked side parent leads
    have predicate : law.isPredicate middle = true := by
      rw [← valid.isPredicate_eq listed]
      exact valid.isPredicate_of_needs (same ▸ grounded.rooted deep built) needed
    obtain ⟨other, known, namedToo, foundToo, -, links⟩ := places.fits middle predicate
    rw [valid.lawNode?_eq listed] at found
    obtain rfl := Option.some.inj (found.symm.trans namedToo)
    obtain rfl := Option.some.inj (present.symm.trans foundToo)
    rw [allowed] at leadsTo
    exact holdsAbove.trans (leadsTo.symm.trans (links side parent leads))

/-- Pairs of an assignment can be recorded one after the other. -/
theorem exists_recordAll (places : law.Places catalog relation place) {pairs : PairPlan}
    (follows : pairs.Follows law place) : ∀ {map : Correspondence}, map.Paired →
      (∀ (node : LawNodeId) (entity : EntityId), map.entityOf[node]? = some entity →
        law.isPredicate node = true ∧ entity = place node) →
      ∃ later, map.recordAll? pairs = some later :=
  @Correspondence.exists_recordAll
    (fun node entity => law.isPredicate node = true ∧ entity = place node)
    (fun _ _ _ inFirst inSecond => inFirst.2.trans inSecond.2.symm)
    (fun first second _ inFirst inSecond =>
      places.injective first second inFirst.1 inSecond.1 (inFirst.2.symm.trans inSecond.2))
    pairs follows

end Law.Places

end ConceptLaws
