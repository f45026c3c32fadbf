import ConceptLaws.Catalog.Basic
import ConceptLaws.Proofs.Outcome
import Mathlib.Data.List.Nodup
import Mathlib.Data.List.Pairwise

/-! Catalogs that passed their checks.
Identifiers lead to one law and one node each, links lead to nodes of the law and run in no cycle,
and a node that a predicate links to is a predicate as well. -/

namespace ConceptLaws

theorem firstRepeated?_eq_none {α : Type} [BEq α] [LawfulBEq α] {seen list : List α} :
    firstRepeated? seen list = none ↔ list.Nodup ∧ ∀ value ∈ list, value ∉ seen := by
  induction list generalizing seen with
  | nil => simp [firstRepeated?]
  | cons first rest ih =>
    unfold firstRepeated?
    split
    · rename_i repeated
      simp [List.contains_iff_mem.1 repeated]
    · rename_i new
      rw [ih, List.nodup_cons, List.forall_mem_cons]
      simp only [List.contains_iff_mem] at new
      simp only [List.mem_cons, not_or]
      constructor
      · rintro ⟨unique, apart⟩
        exact ⟨⟨fun later => (apart first later).1 rfl, unique⟩, new,
          fun value member => (apart value member).2⟩
      · rintro ⟨⟨once, unique⟩, -, apart⟩
        exact ⟨unique, fun value member => ⟨fun same => once (same ▸ member), apart value member⟩⟩

/-- Where no key occurs twice, an item is found under its key. -/
theorem find?_of_nodup {α β : Type} [BEq β] [LawfulBEq β] {key : α → β} {list : List α}
    (unique : (list.map key).Nodup) {item : α} (member : item ∈ list) :
    (list.find? fun other => key other == key item) = some item := by
  induction list with
  | nil => simp at member
  | cons first rest ih =>
    obtain ⟨once, unique⟩ := List.nodup_cons.1 unique
    rcases List.mem_cons.1 member with rfl | later
    · simp
    · have different : key first ≠ key item := fun same => once (same ▸ List.mem_map_of_mem later)
      rw [List.find?_cons_of_neg (by simpa using different)]
      exact ih unique later

/-! ## A single law -/

theorem LawNode.mem_parents {node : LawNode} {parent : LawNodeId} :
    parent ∈ node.parents ↔ ∃ side, node.parent side = some parent := by
  unfold parents
  rw [List.mem_append, Option.mem_toList, Option.mem_toList]
  constructor
  · rintro (head | reference)
    · exact ⟨.head, head⟩
    · exact ⟨.reference, reference⟩
  · rintro ⟨side, linked⟩
    cases side with
    | head => exact Or.inl linked
    | reference => exact Or.inr linked

namespace Law

theorem node?_eq_some {law : Law} {id : LawNodeId} {node : LawNode}
    (found : law.node? id = some node) : node ∈ law.nodes ∧ node.id = id := by
  unfold node? at found
  exact ⟨List.mem_of_find?_eq_some found, by simpa using List.find?_some found⟩

theorem isPredicate_iff {law : Law} {id : LawNodeId} :
    law.isPredicate id = true ↔ ∃ set ∈ law.predicateSets, id ∈ set := by
  unfold isPredicate
  simp [List.any_eq_true]

theorem mem_predicates {law : Law} {id : LawNodeId} :
    id ∈ law.predicates ↔ law.isPredicate id = true := by
  unfold predicates
  rw [mem_foldl_insertMany, isPredicate_iff]
  simp

theorem mem_deepPredicates {law : Law} {id : LawNodeId} :
    id ∈ law.deepPredicates ↔ law.isPredicate id = true ∧
      ∀ node ∈ law.nodes, id ∈ node.parents → law.isPredicate node.id = false := by
  unfold deepPredicates children
  rw [List.mem_filter, Std.ExtTreeSet.mem_toList, mem_predicates]
  simp

/-- What the checks say of a law by itself. -/
structure Valid (law : Law) : Prop where
  linked : ∀ node ∈ law.nodes, ∀ parent ∈ node.parents, law.isNode parent = true
  acyclic : ∀ node ∈ law.nodes, law.walk (law.nodes.length + 1) [node.id] = []
  filled : ∀ set ∈ law.predicateSets, set.isEmpty = false
  predicate : ∀ set ∈ law.predicateSets, ∀ id ∈ set, ∃ node, law.node? id = some node ∧
    node.isData = false ∧ ∀ parent ∈ node.parents, parent ∈ set

theorem checkNode_eq_ok {definition : Definition} {law : Law} {node : LawNode}
    (passed : law.checkNode definition node = .ok ()) :
    ∀ parent ∈ node.parents, law.isNode parent = true := by
  unfold checkNode at passed
  split at passed
  · simp at passed
  split at passed
  · simp at passed
  rename_i found
  simpa using found

theorem checkCycles_eq_ok {law : Law} (passed : law.checkCycles = .ok ()) :
    ∀ node ∈ law.nodes, law.walk (law.nodes.length + 1) [node.id] = [] := by
  unfold checkCycles at passed
  split at passed
  · simp at passed
  rename_i found
  simpa [reachesCycle] using found

theorem checkPredicate_eq_ok {law : Law} {index : Nat} {set : Std.ExtTreeSet LawNodeId}
    {id : LawNodeId} (passed : law.checkPredicate index set id = .ok ()) :
    ∃ node, law.node? id = some node ∧ node.isData = false ∧
      ∀ parent ∈ node.parents, parent ∈ set := by
  unfold checkPredicate at passed
  split at passed
  · simp at passed
  rename_i node found
  split at passed
  · simp at passed
  rename_i plain
  split at passed
  · simp at passed
  rename_i inside
  refine ⟨node, found, by simpa using plain, ?_⟩
  simpa using inside

theorem checkPredicateSet_eq_ok {law : Law} {index : Nat} {set : Std.ExtTreeSet LawNodeId}
    (passed : law.checkPredicateSet index set = .ok ()) :
    set.isEmpty = false ∧ ∀ id ∈ set, law.checkPredicate index set id = .ok () := by
  unfold checkPredicateSet at passed
  split at passed
  · simp at passed
  rename_i filled
  obtain ⟨⟨⟩, members, -⟩ := bind_eq_ok.1 passed
  refine ⟨by simpa using filled, fun id member => ?_⟩
  exact forM_eq_ok.1 members id (Std.ExtTreeSet.mem_toList.2 member)

theorem valid_of_check {definition : Definition} {law : Law}
    (passed : law.check definition = .ok ()) : law.Valid := by
  unfold check at passed
  obtain ⟨⟨⟩, nodes, passed⟩ := bind_eq_ok.1 passed
  obtain ⟨⟨⟩, cycles, passed⟩ := bind_eq_ok.1 passed
  split at passed
  · simp at passed
  obtain ⟨⟨⟩, sets, -⟩ := bind_eq_ok.1 passed
  have checked : ∀ set ∈ law.predicateSets, ∃ index,
      law.checkPredicateSet index set = .ok () := by
    intro set member
    obtain ⟨index, indexed⟩ := List.mem_iff_getElem?.1 member
    exact ⟨index, forM_eq_ok.1 sets (set, index) (List.mk_mem_zipIdx_iff_getElem?.2 indexed)⟩
  refine ⟨fun node member => checkNode_eq_ok (forM_eq_ok.1 nodes node member),
    checkCycles_eq_ok cycles, fun set member => ?_, fun set member id inside => ?_⟩
  · obtain ⟨index, passed⟩ := checked set member
    exact (checkPredicateSet_eq_ok passed).1
  · obtain ⟨index, passed⟩ := checked set member
    exact checkPredicate_eq_ok ((checkPredicateSet_eq_ok passed).2 id inside)

end Law

/-! ## All laws -/

/-- What the checks say of laws that come after the given identifiers. -/
structure Law.Distinct (taken : List LawId) (nodes : List LawNodeId) (laws : List Law) : Prop where
  valid : ∀ law ∈ laws, law.Valid
  lawIds : (laws.map Law.id).Nodup ∧ ∀ law ∈ laws, law.id ∉ taken
  nodeIds : (laws.flatMap fun law => law.nodes.map LawNode.id).Nodup ∧
    ∀ law ∈ laws, ∀ node ∈ law.nodes, node.id ∉ nodes

theorem Law.distinct_of_checkLaws {definition : Definition} {laws : List Law} :
    ∀ {taken : List LawId} {nodes : List LawNodeId},
      definition.checkLaws taken nodes laws = .ok () → Distinct taken nodes laws := by
  induction laws with
  | nil => exact fun _ => ⟨by simp, by simp, by simp⟩
  | cons first rest ih =>
    intro taken nodes passed
    unfold Definition.checkLaws at passed
    split at passed
    · simp at passed
    rename_i newLaw
    split at passed
    · simp at passed
    rename_i newNodes
    split at passed
    · simp at passed
    rename_i checked
    obtain ⟨uniqueNodes, apart⟩ := firstRepeated?_eq_none.1 newNodes
    have later := ih passed
    refine ⟨?_, ⟨?_, ?_⟩, ?_, ?_⟩
    · exact List.forall_mem_cons.2 ⟨Law.valid_of_check checked, later.valid⟩
    · refine List.nodup_cons.2 ⟨fun listed => ?_, later.lawIds.1⟩
      obtain ⟨law, member, same⟩ := List.mem_map.1 listed
      exact later.lawIds.2 law member (same ▸ List.mem_cons_self)
    · refine List.forall_mem_cons.2 ⟨by simpa using newLaw, fun law member listed => ?_⟩
      exact later.lawIds.2 law member (List.mem_cons_of_mem _ listed)
    · rw [List.flatMap_cons, List.nodup_append]
      refine ⟨uniqueNodes, later.nodeIds.1, ?_⟩
      intro first inFirst second inRest same
      obtain ⟨law, member, listed⟩ := List.mem_flatMap.1 inRest
      obtain ⟨node, inLaw, rfl⟩ := List.mem_map.1 listed
      exact later.nodeIds.2 law member node inLaw (List.mem_append_left _ (same ▸ inFirst))
    · refine List.forall_mem_cons.2 ⟨fun node member => ?_, fun law member node inLaw listed => ?_⟩
      · exact apart node.id (List.mem_map_of_mem member)
      · exact later.nodeIds.2 law member node inLaw (List.mem_append_right _ listed)

namespace Catalog

/-- The catalog was made from a definition that passed all checks. -/
def Valid (catalog : Catalog) : Prop := ∃ definition, ofDefinition definition = .ok catalog

theorem Valid.distinct {catalog : Catalog} (valid : catalog.Valid) :
    Law.Distinct [] [] catalog.laws := by
  obtain ⟨definition, made⟩ := valid
  unfold ofDefinition at made
  obtain ⟨⟨⟩, -, made⟩ := bind_eq_ok.1 made
  obtain ⟨lineages, -, made⟩ := bind_eq_ok.1 made
  obtain ⟨⟨⟩, laws, made⟩ := bind_eq_ok.1 made
  obtain rfl := Except.ok.inj made
  exact Law.distinct_of_checkLaws laws

theorem law?_eq_some {catalog : Catalog} {id : LawId} {law : Law}
    (found : catalog.law? id = some law) : law ∈ catalog.laws ∧ law.id = id := by
  unfold law? Definition.law? at found
  exact ⟨List.mem_of_find?_eq_some found, by simpa using List.find?_some found⟩

theorem lawNode?_eq_some {catalog : Catalog} {law : LawId} {id : LawNodeId} {node : LawNode}
    (found : catalog.lawNode? law id = some node) :
    ∃ owner, catalog.law? law = some owner ∧ owner.node? id = some node :=
  Option.bind_eq_some_iff.1 found

theorem isPredicate_iff {catalog : Catalog} {law : LawId} {id : LawNodeId} :
    catalog.isPredicate law id = true ↔
      ∃ owner, catalog.law? law = some owner ∧ owner.isPredicate id = true := by
  unfold isPredicate
  cases catalog.law? law with
  | none => simp
  | some owner => simp

/-- Laws are found under their identifiers. -/
theorem Valid.law? {catalog : Catalog} (valid : catalog.Valid) {law : Law}
    (member : law ∈ catalog.laws) : catalog.law? law.id = some law :=
  find?_of_nodup valid.distinct.lawIds.1 member

/-- Nodes are found under their identifiers. -/
theorem Valid.node? {catalog : Catalog} (valid : catalog.Valid) {law : Law}
    (listed : law ∈ catalog.laws) {node : LawNode} (member : node ∈ law.nodes) :
    law.node? node.id = some node :=
  find?_of_nodup ((List.nodup_flatMap.1 valid.distinct.nodeIds.1).1 law listed) member

/-- A predicate is a node of its law without formula. -/
theorem Valid.lawNode? {catalog : Catalog} (valid : catalog.Valid) {law : LawId} {id : LawNodeId}
    (predicate : catalog.isPredicate law id = true) :
    ∃ node, catalog.lawNode? law id = some node ∧ node.isData = false := by
  obtain ⟨owner, found, inside⟩ := isPredicate_iff.1 predicate
  obtain ⟨set, listed, member⟩ := Law.isPredicate_iff.1 inside
  have checked := (valid.distinct.valid owner (law?_eq_some found).1).predicate set listed id member
  obtain ⟨node, named, plain, -⟩ := checked
  exact ⟨node, by simp [Catalog.lawNode?, found, named], plain⟩

/-- No two laws share a node. -/
theorem Valid.law_eq_of_isPredicate {catalog : Catalog} (valid : catalog.Valid)
    {law other : LawId} {id : LawNodeId} (predicate : catalog.isPredicate law id = true)
    (another : catalog.isPredicate other id = true) : law = other := by
  have owned : ∀ {query : LawId}, catalog.isPredicate query id = true → ∃ owner ∈ catalog.laws,
      owner.id = query ∧ id ∈ owner.nodes.map LawNode.id := by
    intro query inside
    obtain ⟨node, named, -⟩ := valid.lawNode? inside
    obtain ⟨owner, found, present⟩ := lawNode?_eq_some named
    obtain ⟨listed, same⟩ := law?_eq_some found
    obtain ⟨member, rfl⟩ := Law.node?_eq_some present
    exact ⟨owner, listed, same, List.mem_map_of_mem member⟩
  obtain ⟨first, inFirst, rfl, nodeFirst⟩ := owned predicate
  obtain ⟨second, inSecond, rfl, nodeSecond⟩ := owned another
  have apart := (List.nodup_flatMap.1 valid.distinct.nodeIds.1).2
  by_contra different
  have : Std.Symm (Function.onFun List.Disjoint fun law : Law => law.nodes.map LawNode.id) :=
    ⟨fun _ _ disjoint _ left right => disjoint right left⟩
  have disjoint := apart.forall inFirst inSecond fun same => different (congrArg Law.id same)
  exact disjoint nodeFirst nodeSecond

/-- What a predicate links to is a predicate. -/
theorem Valid.isPredicate_parent {catalog : Catalog} (valid : catalog.Valid) {law : LawId}
    {id parent : LawNodeId} {node : LawNode} {side : Side}
    (predicate : catalog.isPredicate law id = true) (named : catalog.lawNode? law id = some node)
    (linked : node.parent side = some parent) : catalog.isPredicate law parent = true := by
  obtain ⟨owner, found, inside⟩ := isPredicate_iff.1 predicate
  obtain ⟨set, listed, member⟩ := Law.isPredicate_iff.1 inside
  have checked := (valid.distinct.valid owner (law?_eq_some found).1).predicate set listed id member
  obtain ⟨other, namedOther, -, closed⟩ := checked
  obtain ⟨ownerToo, foundToo, namedToo⟩ := lawNode?_eq_some named
  obtain rfl : owner = ownerToo := Option.some.inj (found.symm.trans foundToo)
  obtain rfl : other = node := Option.some.inj (namedOther.symm.trans namedToo)
  refine isPredicate_iff.2 ⟨owner, found, Law.isPredicate_iff.2 ⟨set, listed, ?_⟩⟩
  exact closed parent (LawNode.mem_parents.2 ⟨side, linked⟩)

end Catalog

end ConceptLaws
