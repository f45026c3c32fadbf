import ConceptLaws.Proofs.Catalog.Lineage
import ConceptLaws.Proofs.Correspondence.BranchPlans

/-! Consistent definitions.
The checks accept exactly the definitions whose identifiers are distinct, whose names lead somewhere
and whose inheritance and links run in no cycle; and every law has predicate sets that are filled,
closed and all different. -/

namespace ConceptLaws

namespace Law

/-- A node of the law names the other one as its head or its reference. -/
def Links (law : Law) (child parent : LawNodeId) : Prop :=
  ∃ node ∈ law.nodes, node.id = child ∧ parent ∈ node.parents

/-! ## Cycles of links -/

/-- So many links lead from one node to the other. -/
inductive Walks (law : Law) : Nat → LawNodeId → LawNodeId → Prop where
  | stay (id : LawNodeId) : Walks law 0 id id
  | step {steps : Nat} {child parent target : LawNodeId} (link : law.Links child parent)
      (rest : Walks law steps parent target) : Walks law (steps + 1) child target

variable {law : Law} (distinct : (law.nodes.map LawNode.id).Nodup)

include distinct in
theorem node?_eq_some_iff {id : LawNodeId} {node : LawNode} :
    law.node? id = some node ↔ node ∈ law.nodes ∧ node.id = id := by
  refine ⟨node?_eq_some, ?_⟩
  rintro ⟨member, rfl⟩
  exact find?_of_nodup distinct member

include distinct in
theorem mem_parentsOf_iff {ids : List LawNodeId} {parent : LawNodeId} :
    parent ∈ law.parentsOf ids ↔ ∃ child ∈ ids, law.Links child parent := by
  rw [mem_parentsOf]
  simp only [node?_eq_some_iff distinct, Links, and_assoc]

include distinct in
theorem mem_walk {steps : Nat} {ids : List LawNodeId} {target : LawNodeId} :
    target ∈ law.walk steps ids ↔ ∃ start ∈ ids, law.Walks steps start target := by
  induction steps generalizing ids with
  | zero =>
    refine ⟨fun member => ⟨target, member, .stay target⟩, ?_⟩
    rintro ⟨start, member, ⟨⟩⟩
    exact member
  | succ steps ih =>
    rw [walk, ih]
    simp only [mem_parentsOf_iff distinct]
    constructor
    · rintro ⟨parent, ⟨child, member, link⟩, rest⟩
      exact ⟨child, member, .step link rest⟩
    · rintro ⟨start, member, walks⟩
      cases walks with
      | step link rest => exact ⟨_, ⟨start, member, link⟩, rest⟩

/-- A cycle can be followed for ever. -/
theorem exists_walks (steps : Nat) {id : LawNodeId} (cycle : Relation.TransGen law.Links id id) :
    ∃ target, law.Walks steps id target := by
  induction steps generalizing id with
  | zero => exact ⟨id, .stay id⟩
  | succ steps ih =>
    obtain ⟨parent, link, back⟩ := Relation.TransGen.head'_iff.1 cycle
    obtain ⟨target, walks⟩ := ih (Relation.TransGen.tail' back link)
    exact ⟨target, .step link walks⟩

/-- Without cycles a walk comes to a new node with every link. -/
theorem Walks.le_length (acyclic : ∀ id, ¬ Relation.TransGen law.Links id id) {steps : Nat}
    {start target : LawNodeId} (walks : law.Walks steps start target) :
    steps ≤ law.nodes.length := by
  have passed : ∃ passed : List LawNodeId, passed.length = steps ∧ passed.Nodup ∧
      passed ⊆ law.nodes.map LawNode.id ∧
      ∀ id ∈ passed, Relation.ReflTransGen law.Links start id := by
    induction walks with
    | stay id => exact ⟨[], rfl, .nil, List.nil_subset _, by simp⟩
    | @step _ child parent _ link _ ih =>
      obtain ⟨passed, length, unique, listed, above⟩ := ih
      have known : child ∈ law.nodes.map LawNode.id := by
        obtain ⟨node, member, rfl, -⟩ := link
        exact List.mem_map_of_mem member
      refine ⟨child :: passed, congrArg (· + 1) length, List.nodup_cons.2 ⟨fun again => ?_, unique⟩,
        List.cons_subset.2 ⟨known, listed⟩, List.forall_mem_cons.2 ⟨.refl, fun id member => ?_⟩⟩
      · exact acyclic child (Relation.TransGen.head' link (above child again))
      · exact .head link (above id member)
  obtain ⟨passed, rfl, unique, listed, -⟩ := passed
  exact (unique.subperm listed).length_le.trans (List.length_map _).le

include distinct in
/-- The bounded walks find the cycles. -/
theorem checkCycles_iff :
    law.checkCycles = .ok () ↔ ∀ id, ¬ Relation.TransGen law.Links id id := by
  have ends : law.checkCycles = .ok () ↔
      ∀ node ∈ law.nodes, law.walk (law.nodes.length + 1) [node.id] = [] := by
    refine ⟨checkCycles_eq_ok, fun all => ?_⟩
    have none : law.nodes.find? (fun node => law.reachesCycle node.id) = none :=
      List.find?_eq_none.2 fun node member => by simp [reachesCycle, all node member]
    simp [checkCycles, none]
  rw [ends]
  constructor
  · intro all id cycle
    obtain ⟨parent, ⟨node, member, rfl, -⟩, -⟩ := Relation.TransGen.head'_iff.1 cycle
    obtain ⟨target, walks⟩ := exists_walks (law.nodes.length + 1) cycle
    have reached := (mem_walk distinct).2 ⟨_, List.mem_singleton_self _, walks⟩
    simp [all node member] at reached
  · intro acyclic node member
    refine List.eq_nil_iff_forall_not_mem.2 fun target reached => ?_
    obtain ⟨start, -, walks⟩ := (mem_walk distinct).1 reached
    exact absurd (walks.le_length acyclic) (by omega)

/-! ## The checks of a law -/

/-- A set of predicates: not empty, and made of nodes of the law that have no formula and whose
parents are in the set. -/
structure IsPredicateSet (law : Law) (set : Std.ExtTreeSet LawNodeId) : Prop where
  filled : ∃ id, id ∈ set
  closed : ∀ id ∈ set, ∃ node ∈ law.nodes, node.id = id ∧ node.formula = none ∧
    ∀ parent ∈ node.parents, parent ∈ set

/-- What a law needs besides distinct identifiers. -/
structure Consistent (definition : Definition) (law : Law) : Prop where
  known : ∀ node ∈ law.nodes, ∃ concept ∈ definition.concepts, concept.id = node.concept
  linked : ∀ child parent : LawNodeId, law.Links child parent →
    ∃ node ∈ law.nodes, node.id = parent
  headed : ∀ node ∈ law.nodes, node.formula ≠ none → node.head ≠ none
  acyclic : ∀ id : LawNodeId, ¬ Relation.TransGen law.Links id id
  hasSets : law.predicateSets ≠ []
  sets : ∀ set ∈ law.predicateSets, law.IsPredicateSet set
  different : law.predicateSets.Nodup
  deep : ∀ id ∈ law.deepNodes, ∃ node ∈ law.nodes, node.id = id

theorem isNode_iff {id : LawNodeId} : law.isNode id = true ↔ ∃ node ∈ law.nodes, node.id = id := by
  simp [isNode, node?]

theorem find?_isNode_eq_none {ids : List LawNodeId} :
    ids.find? (fun id => !law.isNode id) = none ↔
      ∀ id ∈ ids, ∃ node ∈ law.nodes, node.id = id := by
  simp only [List.find?_eq_none, Bool.not_eq_true', Bool.not_eq_false, isNode_iff]

theorem checkNode_iff {definition : Definition} {node : LawNode} :
    law.checkNode definition node = .ok () ↔
      (∃ concept ∈ definition.concepts, concept.id = node.concept) ∧
      (∀ parent ∈ node.parents, ∃ other ∈ law.nodes, other.id = parent) ∧
      (node.formula ≠ none → node.head ≠ none) := by
  have known : (definition.concept? node.concept).isNone = false ↔
      ∃ concept ∈ definition.concepts, concept.id = node.concept := by
    rw [Option.isNone_eq_false_iff]
    simp [Definition.concept?]
  rw [← known, ← find?_isNode_eq_none]
  unfold checkNode
  split
  · rename_i unknown
    simp [unknown]
  rename_i present
  split
  · rename_i missing
    simp [missing]
  rename_i linked
  rw [linked]
  split
  · rename_i rootless
    simpa [LawNode.isData, Option.isSome_iff_ne_none] using fun _ => rootless
  · rename_i headed
    simpa [present, LawNode.isData, Option.isSome_iff_ne_none] using headed

include distinct in
theorem checkPredicate_iff {index : Nat} {set : Std.ExtTreeSet LawNodeId} {id : LawNodeId} :
    law.checkPredicate index set id = .ok () ↔
      ∃ node ∈ law.nodes, node.id = id ∧ node.formula = none ∧
        ∀ parent ∈ node.parents, parent ∈ set := by
  constructor
  · intro passed
    obtain ⟨node, found, plain, closed⟩ := checkPredicate_eq_ok passed
    obtain ⟨member, same⟩ := node?_eq_some found
    exact ⟨node, member, same, by simpa [LawNode.isData] using plain, closed⟩
  · rintro ⟨node, member, same, plain, closed⟩
    have inside : node.parents.find? (fun parent => !set.contains parent) = none :=
      List.find?_eq_none.2 fun parent linked => by
        simpa using Std.ExtTreeSet.mem_iff_contains.1 (closed parent linked)
    simp [checkPredicate, (node?_eq_some_iff distinct).2 ⟨member, same⟩, LawNode.isData, plain,
      inside]

include distinct in
theorem checkPredicateSet_iff {index : Nat} {set : Std.ExtTreeSet LawNodeId compare} :
    law.checkPredicateSet index set = .ok () ↔
      law.IsPredicateSet set ∧ set ∉ law.predicateSets.take index := by
  have members : set.toList.forM (law.checkPredicate index set) = .ok () ↔
      ∀ id ∈ set, ∃ node ∈ law.nodes, node.id = id ∧ node.formula = none ∧
        ∀ parent ∈ node.parents, parent ∈ set := by
    simp only [forM_eq_ok, Std.ExtTreeSet.mem_toList, checkPredicate_iff distinct]
  unfold checkPredicateSet
  split
  · rename_i empty
    refine ⟨fun impossible => (by cases impossible), fun ⟨⟨⟨id, member⟩, _⟩, _⟩ => ?_⟩
    rw [Std.ExtTreeSet.isEmpty_iff.1 empty] at member
    simp at member
  rename_i filled
  have some : ∃ id, id ∈ set := by
    rw [Bool.not_eq_true, Std.ExtTreeSet.isEmpty_eq_false_iff] at filled
    simpa [Std.ExtTreeSet.eq_empty_iff_forall_not_mem] using filled
  rw [bind_eq_ok]
  split
  · rename_i first found
    refine ⟨fun ⟨_, _, impossible⟩ => (by cases impossible), fun ⟨_, fresh⟩ => ?_⟩
    obtain ⟨inside, same, -⟩ := List.findIdx?_eq_some_iff_getElem.1 found
    exact absurd (eq_of_beq same ▸ List.getElem_mem inside) fresh
  · rename_i absent
    have fresh : set ∉ law.predicateSets.take index := fun member => by
      simpa using List.findIdx?_eq_none_iff.1 absent set member
    constructor
    · rintro ⟨⟨⟩, passed, -⟩
      exact ⟨⟨some, members.1 passed⟩, fresh⟩
    · rintro ⟨⟨-, closed⟩, -⟩
      exact ⟨(), members.2 closed, rfl⟩

/-- Each set is checked against those before it. -/
theorem nodup_iff_take {α : Type} {list : List α} :
    list.Nodup ↔ ∀ index item, list[index]? = some item → item ∉ list.take index := by
  induction list with
  | nil => simp
  | cons first rest ih =>
    rw [List.nodup_cons, ih]
    constructor
    · rintro ⟨once, unique⟩ index item found
      cases index with
      | zero => simp
      | succ index =>
        rw [List.getElem?_cons_succ] at found
        rw [List.take_succ_cons, List.mem_cons, not_or]
        exact ⟨fun same => once (same ▸ List.mem_of_getElem? found), unique index item found⟩
    · intro fresh
      refine ⟨fun again => ?_, fun index item found => ?_⟩
      · obtain ⟨index, found⟩ := List.mem_iff_getElem?.1 again
        exact fresh (index + 1) first found List.mem_cons_self
      · exact fun earlier => fresh (index + 1) item found (List.mem_cons_of_mem _ earlier)

theorem forM_checkNode_iff {definition : Definition} :
    law.nodes.forM (law.checkNode definition) = .ok () ↔
      (∀ node ∈ law.nodes, ∃ concept ∈ definition.concepts, concept.id = node.concept) ∧
      (∀ child parent : LawNodeId, law.Links child parent →
        ∃ node ∈ law.nodes, node.id = parent) ∧
      ∀ node ∈ law.nodes, node.formula ≠ none → node.head ≠ none := by
  simp only [forM_eq_ok, checkNode_iff, Links]
  constructor
  · intro checked
    refine ⟨fun node member => (checked node member).1, ?_,
      fun node member => (checked node member).2.2⟩
    rintro child parent ⟨node, member, -, linked⟩
    exact (checked node member).2.1 parent linked
  · rintro ⟨known, linked, headed⟩ node member
    exact ⟨known node member, fun parent above => linked _ parent ⟨node, member, rfl, above⟩,
      headed node member⟩

include distinct in
theorem forall_checkPredicateSet_iff :
    (∀ pair ∈ law.predicateSets.zipIdx, law.checkPredicateSet pair.2 pair.1 = .ok ()) ↔
      (∀ set ∈ law.predicateSets, law.IsPredicateSet set) ∧ law.predicateSets.Nodup := by
  rw [nodup_iff_take]
  simp only [Prod.forall, List.mk_mem_zipIdx_iff_getElem?, checkPredicateSet_iff distinct]
  constructor
  · intro checked
    refine ⟨fun set member => ?_, fun index set found => (checked set index found).2⟩
    obtain ⟨index, found⟩ := List.mem_iff_getElem?.1 member
    exact (checked set index found).1
  · rintro ⟨valid, fresh⟩ set index found
    exact ⟨valid set (List.mem_of_getElem? found), fresh index set found⟩

theorem checkDeepNodes_iff : law.checkDeepNodes = .ok () ↔
    ∀ id ∈ law.deepNodes, ∃ node ∈ law.nodes, node.id = id := by
  rw [← find?_isNode_eq_none]
  unfold checkDeepNodes
  split
  · rename_i missing
    simp [missing]
  · rename_i found
    simp [found]

include distinct in
/-- A law passes its checks exactly if it is consistent. -/
theorem check_iff {definition : Definition} :
    law.check definition = .ok () ↔ law.Consistent definition := by
  unfold check
  simp only [bind_eq_ok]
  constructor
  · rintro ⟨⟨⟩, nodes, ⟨⟩, cycles, rest⟩
    split at rest
    · cases rest
    rename_i some
    obtain ⟨⟨⟩, checked, last⟩ := bind_eq_ok.1 rest
    obtain ⟨known, linked, headed⟩ := forM_checkNode_iff.1 nodes
    obtain ⟨valid, different⟩ := (forall_checkPredicateSet_iff distinct).1 (forM_eq_ok.1 checked)
    exact ⟨known, linked, headed, (checkCycles_iff distinct).1 cycles, by simpa using some, valid,
      different, checkDeepNodes_iff.1 last⟩
  · rintro ⟨known, linked, headed, acyclic, some, valid, different, last⟩
    refine ⟨(), forM_checkNode_iff.2 ⟨known, linked, headed⟩, (),
      (checkCycles_iff distinct).2 acyclic, ?_⟩
    rw [if_neg (by simpa using some), bind_eq_ok]
    exact ⟨(), forM_eq_ok.2 ((forall_checkPredicateSet_iff distinct).2 ⟨valid, different⟩),
      checkDeepNodes_iff.2 last⟩

end Law

/-! ## All laws -/

namespace Definition

theorem checkLaws_cons_iff {definition : Definition} {taken : List LawId}
    {nodes : List LawNodeId} {first : Law} {rest : List Law} :
    definition.checkLaws taken nodes (first :: rest) = .ok () ↔ first.id ∉ taken ∧
      firstRepeated? nodes (first.nodes.map LawNode.id) = none ∧
      first.check definition = .ok () ∧ definition.checkLaws (first.id :: taken)
        (first.nodes.map LawNode.id ++ nodes) rest = .ok () := by
  rw [checkLaws]
  split
  · rename_i repeated
    simp [List.contains_iff_mem.1 repeated]
  rename_i newLaw
  rw [List.contains_iff_mem] at newLaw
  split
  · rename_i repeated
    simp [repeated]
  rename_i newNodes
  split
  · rename_i failed
    simp [failed]
  · rename_i passed
    simp [newLaw, newNodes, passed]

/-- Laws pass if their identifiers and those of their nodes are new and they pass themselves. -/
theorem checkLaws_iff {definition : Definition} {laws : List Law} :
    ∀ {taken : List LawId} {nodes : List LawNodeId},
      definition.checkLaws taken nodes laws = .ok () ↔
        ((laws.map Law.id).Nodup ∧ ∀ law ∈ laws, law.id ∉ taken) ∧
        ((laws.flatMap fun law => law.nodes.map LawNode.id).Nodup ∧
          ∀ id ∈ laws.flatMap fun law => law.nodes.map LawNode.id, id ∉ nodes) ∧
        ∀ law ∈ laws, law.check definition = .ok () := by
  induction laws with
  | nil => simp [checkLaws]
  | cons first rest ih =>
    intro taken nodes
    -- What the first law takes must not come again: it moves from the distinctness of all
    -- identifiers to the ones already taken.
    rw [checkLaws_cons_iff, ih, firstRepeated?_eq_none]
    constructor
    · rintro ⟨newLaw, ⟨unique, newNodes⟩, passed, ⟨ids, others⟩, ⟨uniqueRest, apart⟩, checked⟩
      refine ⟨⟨List.nodup_cons.2 ⟨fun again => ?_, ids⟩, List.forall_mem_cons.2 ⟨newLaw, ?_⟩⟩,
        ⟨List.nodup_append'.2 ⟨unique, uniqueRest, fun id here later => ?_⟩, fun id member => ?_⟩,
        List.forall_mem_cons.2 ⟨passed, checked⟩⟩
      · obtain ⟨law, member, same⟩ := List.mem_map.1 again
        exact others law member (same ▸ List.mem_cons_self)
      · exact fun law member known => others law member (List.mem_cons_of_mem _ known)
      · exact apart id later (List.mem_append_left _ here)
      · rcases List.mem_append.1 member with here | later
        · exact newNodes id here
        · exact fun known => apart id later (List.mem_append_right _ known)
    · rintro ⟨⟨ids, newLaws⟩, ⟨unique, newNodes⟩, checked⟩
      obtain ⟨once, ids⟩ := List.nodup_cons.1 ids
      obtain ⟨newLaw, newLaws⟩ := List.forall_mem_cons.1 newLaws
      obtain ⟨unique, uniqueRest, apart⟩ := List.nodup_append'.1 unique
      obtain ⟨passed, checked⟩ := List.forall_mem_cons.1 checked
      refine ⟨newLaw, ⟨unique, fun id here => newNodes id (List.mem_append_left _ here)⟩, passed,
        ⟨ids, fun law member => ?_⟩, ⟨uniqueRest, fun id later => ?_⟩, checked⟩
      · rw [List.mem_cons, not_or]
        exact ⟨fun same => once (same ▸ List.mem_map_of_mem member), newLaws law member⟩
      · rw [List.mem_append, not_or]
        exact ⟨fun here => apart here later, newNodes id (List.mem_append_right _ later)⟩

/-- What a definition needs to be a catalog. -/
structure Consistent (definition : Definition) : Prop where
  conceptIds : (definition.concepts.map Concept.id).Nodup
  lawIds : (definition.laws.map Law.id).Nodup
  nodeIds : (definition.laws.flatMap fun law => law.nodes.map LawNode.id).Nodup
  parents : ∀ concept parent : ConceptId, definition.Inherits concept parent →
    ∃ other ∈ definition.concepts, other.id = parent
  acyclic : ∀ id : ConceptId, ¬ Relation.TransGen definition.Inherits id id
  laws : ∀ law ∈ definition.laws, law.Consistent definition

theorem checkParents_iff {definition : Definition} {concept : Concept} :
    definition.checkParents concept = .ok () ↔
      ∀ parent ∈ concept.parents, ∃ other ∈ definition.concepts, other.id = parent := by
  have known {parent : ConceptId} : (definition.concept? parent).isNone = false ↔
      ∃ other ∈ definition.concepts, other.id = parent := by
    rw [Option.isNone_eq_false_iff]
    simp [concept?]
  simp only [← known]
  unfold checkParents
  split
  · rename_i parent found
    have missing := List.find?_some found
    refine ⟨fun impossible => (by cases impossible), fun all => ?_⟩
    exact absurd (all parent (List.mem_of_find?_eq_some found)) (by simpa using missing)
  · rename_i found
    refine ⟨fun _ parent member => ?_, fun _ => rfl⟩
    simpa [Option.isSome_iff_ne_none] using List.find?_eq_none.1 found parent member

theorem checkConcepts_iff {definition : Definition} :
    definition.checkConcepts = .ok () ↔ (definition.concepts.map Concept.id).Nodup ∧
      ∀ concept parent, definition.Inherits concept parent →
        ∃ other ∈ definition.concepts, other.id = parent := by
  unfold checkConcepts
  split
  · rename_i id repeated
    refine ⟨fun impossible => (by cases impossible), fun ⟨unique, _⟩ => ?_⟩
    rw [firstRepeated?_eq_none.2 ⟨unique, by simp⟩] at repeated
    cases repeated
  · rename_i unique
    simp only [forM_eq_ok, checkParents_iff, (firstRepeated?_eq_none.1 unique).1, true_and]
    constructor
    · rintro known concept parent ⟨found, member, -, inherits⟩
      exact known found member parent inherits
    · exact fun known concept member parent inherits =>
        known concept.id parent ⟨concept, member, rfl, inherits⟩

end Definition

namespace Catalog

open Definition

/-- A definition is a catalog if its concepts, its lineages and its laws pass. -/
theorem ofDefinition_eq_ok {definition : Definition} {catalog : Catalog} :
    ofDefinition definition = .ok catalog ↔ definition.checkConcepts = .ok () ∧
      (∃ table, definition.lineages = .ok table ∧ catalog = ⟨definition, table,
        Fingerprint.ofContent Fingerprint.catalogDomain definition.toCbor⟩) ∧
      definition.checkLaws [] [] definition.laws = .ok () := by
  unfold ofDefinition
  simp only [bind_eq_ok]
  constructor
  · rintro ⟨⟨⟩, concepts, table, found, ⟨⟩, laws, done⟩
    exact ⟨concepts, ⟨table, found, (Except.ok.inj done).symm⟩, laws⟩
  · rintro ⟨concepts, ⟨table, found, rfl⟩, laws⟩
    exact ⟨(), concepts, table, found, (), laws, rfl⟩

theorem exists_ofDefinition_iff {definition : Definition} :
    (∃ catalog, ofDefinition definition = .ok catalog) ↔ definition.Consistent := by
  have lineages (distinct : (definition.concepts.map Concept.id).Nodup)
      (known : ∀ concept parent, definition.Inherits concept parent →
        ∃ other ∈ definition.concepts, other.id = parent) :
      (∃ table, definition.lineages = .ok table) ↔
        ∀ id, ¬ Relation.TransGen definition.Inherits id id :=
    exists_lineages_iff.trans (exists_lineage_iff distinct fun concept parent inherits =>
      List.mem_map.2 (known concept parent inherits))
  have laws (nodeIds : (definition.laws.flatMap fun law => law.nodes.map LawNode.id).Nodup) :
      (∀ law ∈ definition.laws, law.check definition = .ok ()) ↔
        ∀ law ∈ definition.laws, law.Consistent definition :=
    forall₂_congr fun law member => Law.check_iff ((List.nodup_flatMap.1 nodeIds).1 law member)
  simp only [ofDefinition_eq_ok, checkConcepts_iff, checkLaws_iff]
  constructor
  · rintro ⟨-, ⟨distinct, known⟩, ⟨table, found, -⟩, ⟨lawIds, -⟩, ⟨nodeIds, -⟩, checked⟩
    exact ⟨distinct, lawIds, nodeIds, known, (lineages distinct known).1 ⟨table, found⟩,
      (laws nodeIds).1 checked⟩
  · rintro ⟨distinct, lawIds, nodeIds, known, acyclic, checked⟩
    obtain ⟨table, found⟩ := (lineages distinct known).2 acyclic
    exact ⟨_, ⟨distinct, known⟩, ⟨table, found, rfl⟩, ⟨lawIds, by simp⟩, ⟨nodeIds, by simp⟩,
      (laws nodeIds).2 checked⟩

/-- A definition is accepted exactly if it is consistent. The catalog holds it as it is; one concept
is an instance of another one if it is a concept from which inheritance leads there, and its lineage
lists its ancestors and itself, each once and after its own parents, itself last. -/
theorem accepts_consistent (definition : Definition) :
    ((∃ catalog, ofDefinition definition = .ok catalog) ↔ definition.Consistent) ∧
    ∀ catalog : Catalog, ofDefinition definition = .ok catalog →
      catalog.definition = definition ∧
      (∀ concept ancestor : ConceptId, catalog.instanceOf concept ancestor = true ↔
        (∃ known ∈ definition.concepts, known.id = concept) ∧
          Relation.ReflTransGen definition.Inherits concept ancestor) ∧
      ∀ concept ∈ definition.concepts,
        definition.IsLineage concept.id (catalog.lineage concept.id) := by
  refine ⟨exists_ofDefinition_iff, fun catalog made => ?_⟩
  obtain ⟨concepts, ⟨table, found, rfl⟩, -⟩ := ofDefinition_eq_ok.1 made
  obtain ⟨distinct, -⟩ := checkConcepts_iff.1 concepts
  obtain ⟨listed, others⟩ := lineages_eq_ok found
  have whole : ∀ concept ∈ definition.concepts,
      definition.IsLineage concept.id (table.getD concept.id []) := by
    intro concept member
    obtain ⟨list, ok, held⟩ := listed concept member
    rw [Std.ExtTreeMap.getD_eq_getD_getElem?, held]
    exact (lineage_eq_ok distinct ok).1
  refine ⟨rfl, fun concept ancestor => ?_, whole⟩
  unfold instanceOf lineage
  rw [List.contains_iff_mem]
  constructor
  · intro member
    by_cases known : concept ∈ definition.concepts.map Concept.id
    · obtain ⟨found, inList, rfl⟩ := List.mem_map.1 known
      exact ⟨⟨found, inList, rfl⟩, ((whole found inList).all ancestor).1 member⟩
    · simp [Std.ExtTreeMap.getD_eq_getD_getElem?, others concept known] at member
  · rintro ⟨⟨known, member, rfl⟩, above⟩
    exact ((whole known member).all ancestor).2 above

/-- Where two parents share a parent, that one is listed once. -/
example : Definition.lineage ⟨[⟨⟨1⟩, "square", [⟨3⟩, ⟨2⟩], ∅, none, false⟩,
    ⟨⟨2⟩, "rhombus", [⟨4⟩], ∅, none, false⟩, ⟨⟨3⟩, "rectangle", [⟨4⟩], ∅, none, false⟩,
    ⟨⟨4⟩, "parallelogram", [], ∅, none, false⟩], []⟩ ⟨1⟩ = .ok [⟨4⟩, ⟨3⟩, ⟨2⟩, ⟨1⟩] := rfl

end Catalog

end ConceptLaws
