import ConceptLaws.Correspondence.Basic
import ConceptLaws.Proofs.Catalog.Valid
import ConceptLaws.Proofs.Correspondence.Planning
import Mathlib.Data.List.Perm.Subperm

/-! Deep predicates.
Every predicate is needed by a deep one, as links run in no cycle, and a deep predicate is needed by
no other predicate. Nodes fill a predicate set if they are one, and are outside if they lie within
none. In a law with a single predicate set, the predicates that some deep ones need
are all of them exactly when no deep predicate is left out. -/

namespace ConceptLaws

namespace Law

theorem mem_parentsOf {law : Law} {ids : List LawNodeId} {parent : LawNodeId} :
    parent ∈ law.parentsOf ids ↔
      ∃ id ∈ ids, ∃ node, law.node? id = some node ∧ parent ∈ node.parents := by
  unfold parentsOf
  rw [List.mem_eraseDups, List.mem_flatMap]
  constructor
  · intro above
    obtain ⟨node, listed, leads⟩ := above
    obtain ⟨id, member, found⟩ := List.mem_filterMap.1 listed
    exact ⟨id, member, node, found, leads⟩
  · intro above
    obtain ⟨id, member, node, found, leads⟩ := above
    exact ⟨node, List.mem_filterMap.2 ⟨id, member, found⟩, leads⟩

theorem walk_subset {law : Law} (steps : Nat) : ∀ {ids others : List LawNodeId}, ids ⊆ others →
    law.walk steps ids ⊆ law.walk steps others := by
  induction steps with
  | zero => exact fun fewer => fewer
  | succ steps ih =>
    intro ids others fewer
    refine ih fun parent above => ?_
    obtain ⟨id, member, node, found, leads⟩ := mem_parentsOf.1 above
    exact mem_parentsOf.2 ⟨id, fewer member, node, found, leads⟩

/-- A walk from what a node links to is a walk from the node with one link more. -/
theorem walk_above_subset {law : Law} (steps : Nat) {id parent : LawNodeId} {node : LawNode}
    (found : law.node? id = some node) (leads : parent ∈ node.parents) :
    law.walk steps [parent] ⊆ law.walk (steps + 1) [id] := by
  refine walk_subset steps fun above member => ?_
  rw [List.mem_singleton.1 member]
  exact mem_parentsOf.2 ⟨id, List.mem_singleton_self id, node, found, leads⟩

/-! ## Coverage -/

theorem nodup_toList (nodes : Std.ExtTreeSet LawNodeId) : nodes.toList.Nodup := by
  refine nodes.distinct_toList.imp fun different equal => different ?_
  exact Std.compare_eq_iff_eq.2 equal

variable {law : Law} {nodes set : Std.ExtTreeSet LawNodeId}

/-- Nodes within a set that has no more of them are the set. -/
theorem eq_of_size_eq (within : ∀ node ∈ nodes, node ∈ set) (same : set.size = nodes.size) :
    nodes = set := by
  have fewer : nodes.toList.Subperm set.toList :=
    List.subperm_of_subset (nodup_toList nodes) fun node member =>
      Std.ExtTreeSet.mem_toList.2 (within node (Std.ExtTreeSet.mem_toList.1 member))
  have all := fewer.perm_of_length_le (by simp [Std.ExtTreeSet.length_toList, same])
  refine Std.ExtTreeSet.ext_mem fun node => ?_
  rw [← Std.ExtTreeSet.mem_toList, all.mem_iff, Std.ExtTreeSet.mem_toList]

/-- The predicate sets that nodes lie within. -/
theorem mem_around : set ∈ (law.predicateSets.filter fun other => nodes.toList.all other.contains) ↔
    set ∈ law.predicateSets ∧ ∀ node ∈ nodes, node ∈ set := by
  rw [List.mem_filter, List.all_eq_true]
  simp [Std.ExtTreeSet.mem_toList]

/-- Nodes fill a predicate set if they are one. -/
theorem coverage_eq_exact_iff : law.coverage nodes = .exact ↔ nodes ∈ law.predicateSets := by
  have filled : ((law.predicateSets.filter fun other => nodes.toList.all other.contains).any
      fun set => set.size == nodes.size) = true ↔ nodes ∈ law.predicateSets := by
    rw [List.any_eq_true]
    constructor
    · rintro ⟨set, around, same⟩
      obtain ⟨listed, within⟩ := mem_around.1 around
      exact eq_of_size_eq within (by simpa using same) ▸ listed
    · exact fun listed => ⟨nodes, mem_around.2 ⟨listed, fun _ member => member⟩, by simp⟩
  rw [← filled]
  unfold coverage
  dsimp only
  split
  · simp [*]
  · split <;> simp [*]

/-- Nodes are not outside if they lie within a predicate set. -/
theorem coverage_ne_outside_iff : law.coverage nodes ≠ .outside ↔
    ∃ set ∈ law.predicateSets, ∀ node ∈ nodes, node ∈ set := by
  have around : (law.predicateSets.filter fun set => nodes.toList.all set.contains).isEmpty =
      false ↔ ∃ set ∈ law.predicateSets, ∀ node ∈ nodes, node ∈ set := by
    rw [List.isEmpty_eq_false_iff_exists_mem]
    exact exists_congr fun set => mem_around
  rw [← around]
  unfold coverage
  dsimp only
  split
  · rename_i filled
    obtain ⟨set, member, -⟩ := List.any_eq_true.1 filled
    simpa using List.ne_nil_of_mem member
  · split <;> simp [*]

/-- Nodes that lie in the only predicate set are within a set, and they fill it exactly when all of
it is there. -/
theorem coverage_single (single : law.predicateSets = [set]) {nodes : List LawNodeId}
    (inside : ∀ node ∈ nodes, node ∈ set) :
    law.coverage (Std.ExtTreeSet.ofList nodes) ≠ .outside ∧
      (law.coverage (Std.ExtTreeSet.ofList nodes) = .exact ↔ ∀ node ∈ set, node ∈ nodes) := by
  have among : ∀ node, node ∈ Std.ExtTreeSet.ofList nodes ↔ node ∈ nodes := by simp
  rw [coverage_ne_outside_iff, coverage_eq_exact_iff, single]
  refine ⟨⟨set, List.mem_singleton_self set, fun node member => inside node ((among node).1 member)⟩,
    ?_⟩
  rw [List.mem_singleton]
  constructor
  · intro same node member
    exact (among node).1 (same ▸ member)
  · intro all
    refine Std.ExtTreeSet.ext_mem fun node => ?_
    rw [among]
    exact ⟨inside node, all node⟩

end Law

namespace Catalog

variable {catalog : Catalog}

theorem Valid.lawNode?_eq (valid : catalog.Valid) {law : Law} (listed : law ∈ catalog.laws)
    (id : LawNodeId) : catalog.lawNode? law.id id = law.node? id := by
  simp [Catalog.lawNode?, valid.law? listed]

theorem Valid.isPredicate_eq (valid : catalog.Valid) {law : Law} (listed : law ∈ catalog.laws)
    (id : LawNodeId) : catalog.isPredicate law.id id = law.isPredicate id := by
  simp [Catalog.isPredicate, valid.law? listed]

/-- All that a predicate needs are predicates. -/
theorem Valid.isPredicate_of_needs (valid : catalog.Valid) {law : LawId} {deep id : LawNodeId}
    (predicate : catalog.isPredicate law deep = true) (needs : catalog.Needs law deep id) :
    catalog.isPredicate law id = true := by
  induction needs with
  | self => exact predicate
  | link side _ found leads ih => exact valid.isPredicate_parent ih found leads

variable {law : Law}

/-- No other predicate needs a deep one. -/
theorem Valid.eq_of_needs_deep (valid : catalog.Valid) (listed : law ∈ catalog.laws)
    {id deep : LawNodeId} (predicate : catalog.isPredicate law.id id = true)
    (lowest : deep ∈ law.deepPredicates) (needs : catalog.Needs law.id id deep) : id = deep := by
  cases needs with
  | self => rfl
  | @link middle _ node side needed found leads =>
    have above := valid.isPredicate_of_needs predicate needed
    rw [valid.isPredicate_eq listed] at above
    rw [valid.lawNode?_eq listed] at found
    obtain ⟨member, rfl⟩ := Law.node?_eq_some found
    have below := (Law.mem_deepPredicates.1 lowest).2 node member
      (LawNode.mem_parents.2 ⟨side, leads⟩)
    exact absurd (above.symm.trans below) (by simp)

/-- From a node of a kind one gets down to one below which there is no other of the kind, since one
cannot go on for more links than a walk up has. -/
theorem Valid.exists_lowest (valid : catalog.Valid) (listed : law ∈ catalog.laws)
    {kind : LawNodeId → Prop} (named : ∀ id, kind id → ∃ node, law.node? id = some node)
    {id : LawNodeId} (start : kind id) : ∃ lowest, kind lowest ∧
      catalog.Needs law.id lowest id ∧
      ∀ node ∈ law.nodes, lowest ∈ node.parents → ¬kind node.id := by
  by_contra nowhere
  have descent : ∀ steps, ∃ below, kind below ∧ catalog.Needs law.id below id ∧
      id ∈ law.walk steps [below] := by
    intro steps
    induction steps with
    | zero => exact ⟨id, start, .self, List.mem_singleton_self id⟩
    | succ steps ih =>
      obtain ⟨below, inside, needs, reached⟩ := ih
      have further : ∃ node ∈ law.nodes, below ∈ node.parents ∧ kind node.id := by
        by_contra stop
        exact nowhere ⟨below, inside, needs, fun node member above deeper =>
          stop ⟨node, member, above, deeper⟩⟩
      obtain ⟨node, member, above, deeper⟩ := further
      have found := valid.node? listed member
      obtain ⟨side, leads⟩ := LawNode.mem_parents.1 above
      refine ⟨node.id, deeper, ?_, Law.walk_above_subset steps found above reached⟩
      exact (Needs.above ((valid.lawNode?_eq listed _).trans found) leads).trans needs
  obtain ⟨below, inside, -, reached⟩ := descent (law.nodes.length + 1)
  obtain ⟨node, found⟩ := named below inside
  obtain ⟨member, rfl⟩ := Law.node?_eq_some found
  rw [(valid.distinct.valid law listed).acyclic node member] at reached
  exact List.not_mem_nil reached

theorem Valid.node?_of_isPredicate (valid : catalog.Valid) (listed : law ∈ catalog.laws)
    {id : LawNodeId} (predicate : law.isPredicate id = true) :
    ∃ node, law.node? id = some node := by
  obtain ⟨set, member, held⟩ := Law.isPredicate_iff.1 predicate
  obtain ⟨node, found, -⟩ := (valid.distinct.valid law listed).predicate set member id held
  exact ⟨node, found⟩

/-- From a predicate one gets down to a deep one. -/
theorem Valid.exists_deep (valid : catalog.Valid) (listed : law ∈ catalog.laws) {id : LawNodeId}
    (predicate : law.isPredicate id = true) :
    ∃ deep ∈ law.deepPredicates, catalog.Needs law.id deep id := by
  obtain ⟨lowest, inside, needs, ends⟩ := valid.exists_lowest listed
    (fun _ => valid.node?_of_isPredicate listed) predicate
  exact ⟨lowest, Law.mem_deepPredicates.2
    ⟨inside, fun node member above => Bool.eq_false_iff.2 (ends node member above)⟩, needs⟩

theorem Law.isPredicate_of_single {set : Std.ExtTreeSet LawNodeId}
    (single : law.predicateSets = [set]) {id : LawNodeId} :
    law.isPredicate id = true ↔ id ∈ set := by
  rw [Law.isPredicate_iff, single]
  simp

/-- The predicates that deep ones need are never outside of the only predicate set, and they fill it
exactly when there are all deep predicates. -/
theorem Valid.coverage_needed (valid : catalog.Valid) (listed : law ∈ catalog.laws)
    (single : law.predicateSets.length = 1) {nodes : List LawNodeId} {built : LawNodeId → Prop}
    (rooted : ∀ deep, built deep → catalog.isPredicate law.id deep = true)
    (needed : ∀ node, node ∈ nodes ↔ ∃ deep, built deep ∧ catalog.Needs law.id deep node) :
    catalog.coverage law.id nodes ≠ .outside ∧
      (catalog.coverage law.id nodes = .exact ↔ ∀ deep ∈ law.deepPredicates, built deep) := by
  obtain ⟨set, only⟩ := List.length_eq_one_iff.1 single
  have found : catalog.coverage law.id nodes = law.coverage (Std.ExtTreeSet.ofList nodes) := by
    simp [coverage, valid.law? listed]
  have inside : ∀ node ∈ nodes, node ∈ set := by
    intro node member
    obtain ⟨deep, present, needs⟩ := (needed node).1 member
    have predicate := valid.isPredicate_of_needs (rooted deep present) needs
    rw [valid.isPredicate_eq listed] at predicate
    exact (Law.isPredicate_of_single only).1 predicate
  obtain ⟨within, filled⟩ := Law.coverage_single only inside
  rw [found]
  refine ⟨within, filled.trans ⟨fun all deep lowest => ?_, fun all node member => ?_⟩⟩
  · have predicate := (Law.mem_deepPredicates.1 lowest).1
    obtain ⟨other, present, needs⟩ :=
      (needed deep).1 (all deep ((Law.isPredicate_of_single only).1 predicate))
    exact valid.eq_of_needs_deep listed (rooted other present) lowest needs ▸ present
  · obtain ⟨deep, lowest, needs⟩ :=
      valid.exists_deep listed ((Law.isPredicate_of_single only).2 member)
    exact (needed node).2 ⟨deep, all deep lowest, needs⟩

theorem Valid.exists_deepPredicate (valid : catalog.Valid) (listed : law ∈ catalog.laws)
    (single : law.predicateSets.length = 1) : ∃ deep, deep ∈ law.deepPredicates := by
  obtain ⟨set, only⟩ := List.length_eq_one_iff.1 single
  have filled := (valid.distinct.valid law listed).filled set (by simp [only])
  rw [← Std.ExtTreeSet.isEmpty_toList] at filled
  obtain ⟨id, member⟩ := List.isEmpty_eq_false_iff_exists_mem.1 filled
  have predicate := (Law.isPredicate_of_single only).2 (Std.ExtTreeSet.mem_toList.1 member)
  obtain ⟨deep, lowest, -⟩ := valid.exists_deep listed predicate
  exact ⟨deep, lowest⟩

end Catalog

end ConceptLaws
