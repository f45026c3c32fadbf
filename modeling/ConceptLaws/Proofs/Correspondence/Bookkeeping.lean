import ConceptLaws.Proofs.Correspondence.Deep
import ConceptLaws.Proofs.Correspondence.Grounding

/-! Bookkeeping of a pass.
Correspondences are never lost, identifiers are not given out twice, and the registry names live
correspondences only. While a correspondence is open it maps nothing but what its deep predicates
need, so that it is satisfied exactly when it was built from all deep predicates of its law. This is
about a law with a single predicate set. -/

namespace ConceptLaws

namespace Correspondence

/-- Something was added, and what was satisfied is so still. -/
structure Ripens (map later : Correspondence) : Prop extends map.Grows later where
  satisfied : map.satisfied = true → later.satisfied = true

theorem ripens_refl (map : Correspondence) : map.Ripens map :=
  ⟨map.grows_refl, fun satisfied => satisfied⟩

theorem Ripens.trans {first second third : Correspondence} (earlier : first.Ripens second)
    (later : second.Ripens third) : first.Ripens third :=
  ⟨earlier.toGrows.trans later.toGrows, fun satisfied =>
    later.satisfied (earlier.satisfied satisfied)⟩

/-- Nothing is mapped but what the deep predicates need. -/
def Slim (map : Correspondence) (catalog : Catalog) : Prop :=
  ∀ (node : LawNodeId) (entity : EntityId), map.entityOf[node]? = some entity →
    ∃ deep ∈ map.deepPredicates, catalog.Needs map.law deep node

/-- The pair is there, and a deep predicate needs it. -/
def Names (map : Correspondence) (catalog : Catalog) (pair : Pair) : Prop :=
  map.entityOf[pair.node]? = some pair.entity ∧
    ∃ deep ∈ map.deepPredicates, catalog.Needs map.law deep pair.node

theorem Names.grow {map later : Correspondence} {catalog : Catalog} {pair : Pair}
    (names : map.Names catalog pair) (grows : map.Grows later) : later.Names catalog pair := by
  refine ⟨grows.kept _ _ names.1, ?_⟩
  rw [grows.deepPredicates, grows.law]
  exact names.2

/-- What a correspondence of a pass is like. One of the law is satisfied if and only if it was built
from all deep predicates. -/
structure Regular (map : Correspondence) (catalog : Catalog) (law : Law) : Prop where
  built : ∃ deep, deep ∈ map.deepPredicates
  slim : map.satisfied = false → map.Slim catalog
  settled : map.law = law.id →
    (map.satisfied = true ↔ ∀ deep ∈ law.deepPredicates, deep ∈ map.deepPredicates)

theorem Regular.grow {map later : Correspondence} {catalog : Catalog} {law : Law}
    (regular : map.Regular catalog law) (grows : map.Grows later)
    (same : later.satisfied = map.satisfied)
    (open_ : map.satisfied = false → later.entityOf = map.entityOf) :
    later.Regular catalog law := by
  refine ⟨?_, fun unsatisfied node entity held => ?_, ?_⟩
  · rw [grows.deepPredicates]
    exact regular.built
  · rw [same] at unsatisfied
    rw [open_ unsatisfied] at held
    rw [grows.deepPredicates, grows.law]
    exact regular.slim unsatisfied node entity held
  · rw [grows.deepPredicates, grows.law, same]
    exact regular.settled

variable {map : Correspondence} {catalog : Catalog} {relation : Relation} {law : Law}

/-- The predicates that a slim correspondence maps are those that its deep predicates need. -/
theorem mem_predicateNodes (valid : catalog.Valid) (grounded : map.Grounded catalog relation)
    (slim : map.Slim catalog) (node : LawNodeId) : node ∈ map.predicateNodes catalog ↔
      ∃ deep, deep ∈ map.deepPredicates ∧ catalog.Needs map.law deep node := by
  unfold predicateNodes
  rw [List.mem_filter, Std.ExtTreeMap.mem_keys]
  constructor
  · intro member
    obtain ⟨entity, held⟩ := Option.isSome_iff_exists.1
      (Std.ExtTreeMap.mem_iff_isSome_getElem?.1 member.1)
    exact slim node entity held
  · intro needed
    obtain ⟨deep, built, needs⟩ := needed
    obtain ⟨_, place, _, _, -, holds, -⟩ := grounded.fits deep built node needs
    refine ⟨Std.ExtTreeMap.mem_iff_isSome_getElem?.2 (by simp [holds]), ?_⟩
    exact valid.isPredicate_of_needs (grounded.rooted deep built) needs

/-! ## Seeds -/

theorem slim_ofPlan {law : LawId} {pair : Pair} {plan : PairPlan}
    (planned : (empty law).plan? relation catalog pair = some plan) :
    (ofPlan law pair.node plan).Slim catalog := by
  intro node entity held
  obtain ⟨-, -, backed⟩ := widens_plan planned
  have listed : ⟨entity, node⟩ ∈ plan := (mapped_foldl_record held).resolve_left (by simp [empty])
  refine ⟨pair.node, (seededAt_ofPlan planned).member, ?_⟩
  rw [law_ofPlan]
  exact (backed ⟨entity, node⟩ listed).1

/-! ## Unions -/

theorem mapped_recordAll {pairs : List Pair} {map later : Correspondence}
    (recorded : map.recordAll? pairs = some later) {node : LawNodeId} {entity : EntityId}
    (held : later.entityOf[node]? = some entity) :
    map.entityOf[node]? = some entity ∨ ⟨entity, node⟩ ∈ pairs := by
  have folded : later = pairs.foldl record map := by
    clear held
    induction pairs generalizing map with
    | nil => exact (Option.some.inj recorded).symm
    | cons first rest ih =>
      unfold recordAll? at recorded
      split at recorded
      · simp at recorded
      · exact ih recorded
  exact mapped_foldl_record (folded ▸ held)

theorem mapped_union {matcher : Matcher} {left right merged : Correspondence} {fills : Bool}
    (unites : matcher.Unites catalog left right merged fills) {node : LawNodeId} {entity : EntityId}
    (held : merged.entityOf[node]? = some entity) :
    ⟨entity, node⟩ ∈ left.predicatePairs catalog ++ right.predicatePairs catalog := by
  obtain ⟨base, recorded, rfl⟩ := unites.recorded
  exact (mapped_recordAll recorded held).resolve_left (by simp [empty])

/-- A predicate pair of a slim correspondence is needed. -/
theorem Slim.needed (slim : map.Slim catalog) (paired : map.Paired) {pair : Pair}
    (listed : pair ∈ map.predicatePairs catalog) :
    ∃ deep ∈ map.deepPredicates, catalog.Needs map.law deep pair.node := by
  obtain ⟨member, -⟩ := List.mem_filter.1 listed
  exact slim pair.node pair.entity ((paired _ _).1 (mem_pairs.1 member))

theorem slim_union {matcher : Matcher} {left right merged : Correspondence} {fills : Bool}
    (unites : matcher.Unites catalog left right merged fills) (slimLeft : left.Slim catalog)
    (slimRight : right.Slim catalog) (pairedLeft : left.Paired) (pairedRight : right.Paired) :
    merged.Slim catalog := by
  intro node entity held
  rw [unites.law_merged]
  rcases List.mem_append.1 (mapped_union unites held) with inLeft | inRight
  · obtain ⟨deep, built, needs⟩ := slimLeft.needed pairedLeft inLeft
    exact ⟨deep, unites.mem_deepPredicates.2 (Or.inl built), needs⟩
  · obtain ⟨deep, built, needs⟩ := slimRight.needed pairedRight inRight
    rw [unites.law] at needs
    exact ⟨deep, unites.mem_deepPredicates.2 (Or.inr built), needs⟩

/-- A union is built from several deep predicates. -/
theorem several_union {matcher : Matcher} {left right merged : Correspondence} {fills : Bool}
    (unites : matcher.Unites catalog left right merged fills)
    (builtLeft : ∃ deep, deep ∈ left.deepPredicates)
    (builtRight : ∃ deep, deep ∈ right.deepPredicates) : merged.deepPredicates.size ≠ 1 := by
  obtain ⟨first, inLeft⟩ := builtLeft
  obtain ⟨second, inRight⟩ := builtRight
  intro single
  obtain rfl := eq_of_size_eq_one single (unites.mem_deepPredicates.2 (Or.inl inLeft))
    (unites.mem_deepPredicates.2 (Or.inr inRight))
  exact unites.apart first inLeft inRight

/-- A seed fills the only predicate set of its law exactly when there is no other deep predicate. -/
theorem fills_iff (valid : catalog.Valid) (listed : law ∈ catalog.laws)
    (single : law.predicateSets.length = 1) (named : map.law = law.id)
    (grounded : map.Grounded catalog relation) (slim : map.Slim catalog) :
    map.Fills catalog ↔ ∀ deep ∈ law.deepPredicates, deep ∈ map.deepPredicates := by
  have rooted := grounded.rooted
  have needed := mem_predicateNodes valid grounded slim
  rw [named] at rooted needed
  unfold Fills
  rw [named]
  exact (valid.coverage_needed listed single rooted needed).2

/-- A union of slim correspondences lies within the only predicate set of its law, and fills it
exactly when together they have all deep predicates. -/
theorem jointCoverage_iff (valid : catalog.Valid) (listed : law ∈ catalog.laws)
    (single : law.predicateSets.length = 1) {left right : Correspondence}
    (named : left.law = law.id) (namedRight : right.law = law.id)
    (grounded : left.Grounded catalog relation) (groundedRight : right.Grounded catalog relation)
    (slim : left.Slim catalog) (slimRight : right.Slim catalog) :
    jointCoverage catalog left right ≠ .outside ∧ (jointCoverage catalog left right = .exact ↔
      ∀ deep ∈ law.deepPredicates, deep ∈ left.deepPredicates ∨ deep ∈ right.deepPredicates) := by
  have needed := mem_predicateNodes valid grounded slim
  have neededRight := mem_predicateNodes valid groundedRight slimRight
  rw [named] at needed
  rw [namedRight] at neededRight
  unfold jointCoverage
  rw [named]
  apply valid.coverage_needed listed single
  · intro deep built
    rcases built with inLeft | inRight
    · exact named ▸ grounded.rooted deep inLeft
    · exact namedRight ▸ groundedRight.rooted deep inRight
  · intro node
    rw [List.mem_append, needed, neededRight]
    simp only [or_and_right, exists_or]

end Correspondence

end ConceptLaws
