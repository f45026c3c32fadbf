import ConceptLaws.Proofs.Relation.Links

/-! The order of the entities.
Entities are listed with their parents before them, so only entities that lie on or below a cycle
can be left out. Where links lead to entities of the relation, a relation passes the check for
cycles exactly if following links never leads back to the start. -/

namespace ConceptLaws

namespace Relation

/-! ## Tables -/

theorem getElem?_countParents (rows : List (EntityId × List EntityId)) (start : OpenParents)
    (id : EntityId) (unique : (rows.map Prod.fst).Nodup) :
    (rows.foldl (fun table (id, above) => table.insert id above.length) start)[id]? =
      match rows.find? fun row => row.1 == id with
      | some row => some row.2.length
      | none => start[id]? := by
  induction rows generalizing start with
  | nil => rfl
  | cons first rest ih =>
    obtain ⟨once, unique⟩ := List.nodup_cons.1 unique
    rw [List.foldl_cons, ih _ unique, List.find?_cons]
    by_cases here : first.1 = id
    · have absent : rest.find? (fun row => row.1 == id) = none := by
        rw [List.find?_eq_none]
        intro row member same
        exact once (here ▸ eq_of_beq same ▸ List.mem_map_of_mem member)
      rw [absent]
      simp [here]
    · have different : (first.1 == id) = false := by simp [here]
      rw [different]
      cases rest.find? fun row => row.1 == id with
      | none => simp [Std.ExtTreeMap.getElem?_insert, here]
      | some row => rfl

/-- The children of an entity are those that name it among their parents. -/
theorem getD_childTable (rows : List (EntityId × List EntityId))
    (start : Std.ExtTreeMap EntityId (List EntityId)) (parent : EntityId)
    (unique : ∀ row ∈ rows, row.2.Nodup) :
    (rows.foldl (fun table (id, above) =>
      above.foldl (fun table parent => table.insert parent (table.getD parent [] ++ [id])) table)
      start).getD parent [] =
        start.getD parent [] ++ (rows.filter fun row => row.2.contains parent).map Prod.fst := by
  have noted (id : EntityId) (above : List EntityId) (unique : above.Nodup)
      (table : Std.ExtTreeMap EntityId (List EntityId)) :
      (above.foldl (fun table parent => table.insert parent (table.getD parent [] ++ [id]))
        table).getD parent [] =
          table.getD parent [] ++ if above.contains parent then [id] else [] := by
    induction above generalizing table with
    | nil => simp
    | cons first rest ih =>
      obtain ⟨once, unique⟩ := List.nodup_cons.1 unique
      rw [List.foldl_cons, ih unique, Std.ExtTreeMap.getD_insert]
      simp only [Std.compare_eq_iff_eq]
      by_cases here : first = parent
      · subst here
        simp [once]
      · simp [here, Ne.symm here]
  induction rows generalizing start with
  | nil => simp
  | cons first rest ih =>
    rw [List.foldl_cons, ih _ fun row member => unique row (List.mem_cons_of_mem _ member),
      noted _ _ (unique first List.mem_cons_self), List.append_assoc, List.filter_cons]
    split
    · simp
    · simp

/-- Counting an entity off each of its children: no child is counted twice, so each count is read
as it was before. -/
theorem foldl_countOff (kids : List EntityId) (unique : kids.Nodup) (openParents : OpenParents)
    (ready : List EntityId) :
    (∀ id : EntityId, (kids.foldl countOff (openParents, ready)).1[id]? =
      if id ∈ kids then openParents[id]?.map (· - 1) else openParents[id]?) ∧
    (kids.foldl countOff (openParents, ready)).2 =
      ready ++ kids.filter fun kid => openParents[kid]? == some 1 := by
  induction kids generalizing openParents ready with
  | nil => simp
  | cons first rest ih =>
    obtain ⟨once, unique⟩ := List.nodup_cons.1 unique
    rw [List.foldl_cons, List.filter_cons]
    cases held : openParents[first]? with
    | none =>
      have skipped : countOff (openParents, ready) first = (openParents, ready) := by
        simp [countOff, held]
      rw [skipped]
      obtain ⟨counts, list⟩ := ih unique openParents ready
      refine ⟨fun id => ?_, by simpa using list⟩
      rw [counts]
      by_cases here : id = first
      · simp [here, held]
      · simp [here]
    | some count =>
      have counted : countOff (openParents, ready) first = (openParents.insert first (count - 1),
          if count = 1 then ready ++ [first] else ready) := by
        simp [countOff, held]
      rw [counted]
      obtain ⟨counts, list⟩ := ih unique (openParents.insert first (count - 1))
        (if count = 1 then ready ++ [first] else ready)
      have later (id : EntityId) (different : id ≠ first) :
          (openParents.insert first (count - 1))[id]? = openParents[id]? := by
        simp [Std.ExtTreeMap.getElem?_insert, Ne.symm different]
      constructor
      · intro id
        rw [counts]
        by_cases here : id = first
        · simp [here, once, held]
        · simp [here, later id here]
      · have same :
            (rest.filter fun kid => (openParents.insert first (count - 1))[kid]? == some 1) =
              rest.filter fun kid => openParents[kid]? == some 1 := by
          refine List.filter_congr fun kid member => ?_
          rw [later kid fun same => once (same ▸ member)]
        rw [list, same]
        by_cases last : count = 1
        · simp [last]
        · simp [last]

theorem filter_not_contains_cons {list : List EntityId} (unique : list.Nodup)
    (listed : List EntityId) (first : EntityId) :
    (list.filter fun id => !(first :: listed).contains id) =
      (list.filter fun id => !listed.contains id).erase first := by
  rw [(unique.filter _).erase_eq_filter, List.filter_filter]
  refine List.filter_congr fun id _ => ?_
  simp only [List.contains_cons, Bool.not_or, bne]

/-! ## The parents of an identifier -/

/-- The entities that an identifier links to, each once. -/
def above (relation : Relation) (id : EntityId) : List EntityId :=
  ((relation.get? id).map relation.parentsOf).getD []

theorem nodup_above (relation : Relation) (id : EntityId) : (relation.above id).Nodup := by
  unfold above
  cases relation.get? id with
  | none => exact .nil
  | some entity => exact nodup_eraseDups _

theorem mem_above {relation : Relation} {id parent : EntityId} :
    parent ∈ relation.above id ↔ relation.Links id parent ∧ relation.contains parent := by
  unfold above Links
  cases relation.get? id with
  | none => simp
  | some entity => simp [parentsOf]

theorem Forest.mem_above {relation : Relation} (forest : relation.Forest) {id parent : EntityId} :
    parent ∈ relation.above id ↔ relation.Links id parent := by
  rw [Relation.mem_above]
  exact ⟨And.left, fun link => ⟨link, forest.grounded link⟩⟩

/-- The parents of an entity that are not listed yet. -/
def waitsFor (relation : Relation) (listed : List EntityId) (id : EntityId) : List EntityId :=
  (relation.above id).filter fun parent => !listed.contains parent

theorem mem_waitsFor {relation : Relation} {listed : List EntityId} {id parent : EntityId} :
    parent ∈ relation.waitsFor listed id ↔ parent ∈ relation.above id ∧ parent ∉ listed := by
  simp [waitsFor]

theorem waitsFor_eq_nil {relation : Relation} {listed : List EntityId} {id : EntityId} :
    relation.waitsFor listed id = [] ↔ ∀ parent ∈ relation.above id, parent ∈ listed := by
  rw [List.eq_nil_iff_forall_not_mem]
  simp only [mem_waitsFor, not_and, not_not]

/-- Listing an entity counts it off its children and no others. -/
theorem waitsFor_cons (relation : Relation) (listed : List EntityId) (first id : EntityId) :
    relation.waitsFor (first :: listed) id = (relation.waitsFor listed id).erase first :=
  filter_not_contains_cons (relation.nodup_above id) listed first

/-! ## Listing -/

/-- Where a listing stands: the counts are those of the parents still to come, the ready entities
are those without any. -/
structure Listing (relation : Relation) (listed : List EntityId) (openParents : OpenParents)
    (ready : List EntityId) : Prop where
  counted : ∀ {id : EntityId}, relation.contains id →
    openParents[id]? = some (relation.waitsFor listed id).length
  unique : ready.Nodup
  mem_ready : ∀ {id : EntityId}, id ∈ ready ↔
    relation.contains id ∧ id ∉ listed ∧ relation.waitsFor listed id = []
  settled : ∀ id ∈ listed, relation.waitsFor listed id = []

/-- The listed children of each entity are those that link to it. -/
structure ChildTable (relation : Relation) (childrenOf : EntityId → List EntityId) : Prop where
  unique : ∀ id, (childrenOf id).Nodup
  mem : ∀ {id kid : EntityId}, kid ∈ childrenOf id ↔ id ∈ relation.above kid

theorem contains_of_mem_above {relation : Relation} {id parent : EntityId}
    (linked : parent ∈ relation.above id) : relation.contains id :=
  (mem_above.1 linked).1.contains

/-- A child whose last parent is listed becomes ready. -/
theorem Listing.step {relation : Relation} {childrenOf : EntityId → List EntityId}
    (table : relation.ChildTable childrenOf) {listed waiting : List EntityId} {first : EntityId}
    {openParents : OpenParents} (listing : relation.Listing listed openParents (first :: waiting)) :
    relation.Listing (first :: listed)
      ((childrenOf first).foldl countOff (openParents, waiting)).1
      ((childrenOf first).foldl countOff (openParents, waiting)).2 := by
  obtain ⟨counts, ready⟩ :=
    foldl_countOff (childrenOf first) (table.unique first) openParents waiting
  obtain ⟨firstPresent, firstNew, firstReady⟩ := listing.mem_ready.1 List.mem_cons_self
  obtain ⟨once, unique⟩ := List.nodup_cons.1 listing.unique
  have waits {kid : EntityId} (child : kid ∈ childrenOf first) :
      first ∈ relation.waitsFor listed kid := mem_waitsFor.2 ⟨table.mem.1 child, firstNew⟩
  have last {kid : EntityId} (child : kid ∈ childrenOf first) :
      (openParents[kid]? == some 1) = true ↔ relation.waitsFor (first :: listed) kid = [] := by
    rw [listing.counted (contains_of_mem_above (table.mem.1 child)), waitsFor_cons,
      ← List.length_eq_zero_iff, List.length_erase_of_mem (waits child)]
    have positive := List.length_pos_of_mem (waits child)
    simp only [beq_iff_eq, Option.some.injEq]
    omega
  have other {kid : EntityId} (apart : kid ∉ childrenOf first) :
      relation.waitsFor (first :: listed) kid = relation.waitsFor listed kid := by
    rw [waitsFor_cons, List.erase_of_not_mem]
    exact fun member => apart (table.mem.2 (mem_waitsFor.1 member).1)
  refine ⟨fun {id} present => ?_, ?_, fun {id} => ?_, fun id member => ?_⟩
  · rw [counts, listing.counted present]
    by_cases child : id ∈ childrenOf first
    · rw [if_pos child, waitsFor_cons, List.length_erase_of_mem (waits child), Option.map_some]
    · rw [if_neg child, other child]
  · rw [ready, List.nodup_append']
    refine ⟨unique, (table.unique first).filter _, fun id waiting child => ?_⟩
    have none := (listing.mem_ready.1 (List.mem_cons_of_mem _ waiting)).2.2
    exact List.ne_nil_of_mem (waits (List.mem_filter.1 child).1) none
  · rw [ready, List.mem_append, List.mem_filter, List.mem_cons, not_or]
    by_cases child : id ∈ childrenOf first
    · have held : relation.waitsFor listed id ≠ [] := List.ne_nil_of_mem (waits child)
      have notWaiting : id ∉ waiting := fun member =>
        held (listing.mem_ready.1 (List.mem_cons_of_mem _ member)).2.2
      have new : id ∉ listed := fun member => held (listing.settled id member)
      have different : id ≠ first := fun same => held (same ▸ firstReady)
      have present := contains_of_mem_above (table.mem.1 child)
      simp only [notWaiting, false_or, child, true_and, last child, present, different, new,
        not_false_eq_true]
    · rw [other child]
      have kept : id ∈ waiting ↔ id ∈ first :: waiting ∧ id ≠ first := by
        rw [List.mem_cons]
        constructor
        · exact fun member => ⟨.inr member, fun same => once (same ▸ member)⟩
        · exact fun member => member.1.resolve_left member.2
      rw [kept, listing.mem_ready]
      tauto
  · rw [waitsFor_cons]
    rcases List.mem_cons.1 member with rfl | before
    · rw [firstReady, List.erase_nil]
    · rw [listing.settled id before, List.erase_nil]

/-- Every entity comes after its parents. -/
inductive ParentsFirst (relation : Relation) : List EntityId → List EntityId → Prop where
  | nil (listed : List EntityId) : ParentsFirst relation listed []
  | cons {listed rest : List EntityId} {first : EntityId}
      (parents : ∀ parent ∈ relation.above first, parent ∈ listed)
      (later : ParentsFirst relation (first :: listed) rest) :
      ParentsFirst relation listed (first :: rest)

/-- A whole listing: parents come first, and whoever is left out waits for someone left out. -/
theorem Listing.listReady {relation : Relation} {childrenOf : EntityId → List EntityId}
    (table : relation.ChildTable childrenOf) (turns : Nat) {listed ready : List EntityId}
    {openParents : OpenParents} (listing : relation.Listing listed openParents ready)
    (enough : (relation.ids.filter fun id => !listed.contains id).length ≤ turns) :
    relation.ParentsFirst listed (relation.listReady childrenOf turns openParents ready) ∧
      ∀ id, relation.contains id → id ∉ listed →
        id ∉ relation.listReady childrenOf turns openParents ready →
        ∃ parent ∈ relation.above id, parent ∉ listed ∧
          parent ∉ relation.listReady childrenOf turns openParents ready := by
  have stuck {listed : List EntityId} {openParents : OpenParents}
      (listing : relation.Listing listed openParents []) {id : EntityId}
      (present : relation.contains id) (new : id ∉ listed) :
      ∃ parent ∈ relation.above id, parent ∉ listed ∧ parent ∉ ([] : List EntityId) := by
    have waits : relation.waitsFor listed id ≠ [] := fun none =>
      List.not_mem_nil (listing.mem_ready.2 ⟨present, new, none⟩)
    obtain ⟨parent, member⟩ := List.exists_mem_of_ne_nil _ waits
    exact ⟨parent, (mem_waitsFor.1 member).1, (mem_waitsFor.1 member).2, List.not_mem_nil⟩
  induction turns generalizing listed openParents ready with
  | zero =>
    refine ⟨.nil listed, fun id present new _ => ?_⟩
    have member : id ∈ relation.ids.filter fun id => !listed.contains id :=
      List.mem_filter.2 ⟨mem_ids.2 present, by simpa using new⟩
    exact absurd (List.length_pos_of_mem member) (by omega)
  | succ turns ih =>
    cases ready with
    | nil => exact ⟨.nil listed, fun id present new _ => stuck listing present new⟩
    | cons first waiting =>
      obtain ⟨firstPresent, firstNew, firstReady⟩ := listing.mem_ready.1 List.mem_cons_self
      have fewer :
          (relation.ids.filter fun id => !(first :: listed).contains id).length ≤ turns := by
        have member : first ∈ relation.ids.filter fun id => !listed.contains id :=
          List.mem_filter.2 ⟨mem_ids.2 firstPresent, by simpa using firstNew⟩
        rw [filter_not_contains_cons relation.nodup_ids, List.length_erase_of_mem member]
        omega
      obtain ⟨parents, left⟩ := ih (listing.step table) fewer
      refine ⟨.cons (waitsFor_eq_nil.1 firstReady) parents, fun id present new unlisted => ?_⟩
      obtain ⟨different, unlisted⟩ := not_or.1 (mt List.mem_cons.2 unlisted)
      obtain ⟨parent, linked, old, later⟩ := left id present
        (fun member => (List.mem_cons.1 member).elim different new) unlisted
      obtain ⟨notFirst, old⟩ := not_or.1 (mt List.mem_cons.2 old)
      exact ⟨parent, linked, old, fun member => (List.mem_cons.1 member).elim notFirst later⟩

/-! ## The topological order -/

theorem Named.map_toList {relation : Relation} (named : relation.Named) :
    (relation.toList.map fun entity => (entity.id, relation.parentsOf entity)) =
      relation.ids.map fun id => (id, relation.above id) := by
  rw [toList, values_eq_map, ids_eq_map, List.map_map, List.map_map]
  refine List.map_congr_left fun held member => ?_
  have found : relation.get? held.1 = some held.2 :=
    Std.ExtTreeMap.mem_toList_iff_getElem?_eq_some.1 member
  simp only [Function.comp_apply, named held.1 held.2 found, above, found, Option.map_some,
    Option.getD_some]

def rows (relation : Relation) : List (EntityId × List EntityId) :=
  relation.ids.map fun id => (id, relation.above id)

def countTable (relation : Relation) : OpenParents :=
  relation.rows.foldl (fun table (id, above) => table.insert id above.length) ∅

def childTable (relation : Relation) (id : EntityId) : List EntityId :=
  (relation.rows.foldl (fun table (id, above) =>
    above.foldl (fun table parent => table.insert parent (table.getD parent [] ++ [id])) table)
    (∅ : Std.ExtTreeMap EntityId (List EntityId))).getD id []

theorem Named.topological_eq {relation : Relation} (named : relation.Named) :
    relation.topological = relation.listReady relation.childTable relation.size
      relation.countTable (relation.ids.filter fun id => (relation.above id).isEmpty) := by
  unfold topological
  simp only [named.map_toList]
  have ready : ((relation.ids.map fun id => (id, relation.above id)).filter
      fun row => row.2.isEmpty).map Prod.fst =
        relation.ids.filter fun id => (relation.above id).isEmpty := by
    simp [List.filter_map, List.map_map, Function.comp_def]
  rw [ready]
  rfl

theorem childTable_childTable (relation : Relation) :
    relation.ChildTable relation.childTable := by
  have children (id : EntityId) : relation.childTable id =
      relation.ids.filter fun kid => (relation.above kid).contains id := by
    unfold childTable
    rw [getD_childTable]
    · simp [rows, List.filter_map, List.map_map, Function.comp_def]
    · intro row member
      obtain ⟨kid, -, rfl⟩ := List.mem_map.1 member
      exact relation.nodup_above kid
  refine ⟨fun id => ?_, fun {id kid} => ?_⟩
  · rw [children]
    exact relation.nodup_ids.filter _
  · rw [children, List.mem_filter, List.contains_iff_mem, mem_ids]
    exact ⟨And.right, fun linked => ⟨contains_of_mem_above linked, linked⟩⟩

theorem listing_start (relation : Relation) :
    relation.Listing [] relation.countTable
      (relation.ids.filter fun id => (relation.above id).isEmpty) := by
  have whole (id : EntityId) : relation.waitsFor [] id = relation.above id := by simp [waitsFor]
  have keys : (relation.rows.map Prod.fst).Nodup := by
    simpa [rows, List.map_map, Function.comp_def] using relation.nodup_ids
  refine ⟨fun {id} present => ?_, relation.nodup_ids.filter _, fun {id} => ?_, by simp⟩
  · have row : (id, relation.above id) ∈ relation.rows :=
      List.mem_map_of_mem (mem_ids.2 present)
    rw [countTable, getElem?_countParents _ _ _ keys, find?_of_nodup keys row, whole]
  · rw [whole, List.mem_filter, mem_ids, List.isEmpty_iff]
    simp

/-- The order lists parents first, and whoever is left out links to someone left out. -/
theorem Named.topological {relation : Relation} (named : relation.Named) :
    relation.ParentsFirst [] relation.topological ∧
      ∀ id, relation.contains id → id ∉ relation.topological →
        ∃ parent ∈ relation.above id, parent ∉ relation.topological := by
  rw [named.topological_eq]
  obtain ⟨parentsFirst, left⟩ := relation.listing_start.listReady relation.childTable_childTable
    relation.size (relation.length_ids ▸ List.length_filter_le _ _)
  refine ⟨parentsFirst, fun id present unlisted => ?_⟩
  obtain ⟨parent, linked, -, out⟩ := left id present List.not_mem_nil unlisted
  exact ⟨parent, linked, out⟩

/-! ## Cycles -/

/-- Climbing from a listed entity comes to an end. -/
theorem ParentsFirst.acc {relation : Relation} (grounded : ∀ {child parent : EntityId},
      relation.Links child parent → relation.contains parent) {listed order : List EntityId}
    (sorted : relation.ParentsFirst listed order)
    (before : ∀ id ∈ listed, Acc (fun parent child => relation.Links child parent) id) :
    ∀ id ∈ order, Acc (fun parent child => relation.Links child parent) id := by
  induction sorted with
  | nil => simp
  | cons parents later ih =>
    rename_i listed rest first
    have here : Acc (fun parent child => relation.Links child parent) first :=
      .intro first fun parent link =>
        before parent (parents parent (mem_above.2 ⟨link, grounded link⟩))
    have all := ih fun id member =>
      (List.mem_cons.1 member).elim (fun same => same ▸ here) (before id)
    exact fun id member => (List.mem_cons.1 member).elim (fun same => same ▸ here) (all id)

theorem not_leads_of_acc {relation : Relation} {id : EntityId}
    (ends : Acc (fun parent child => relation.Links child parent) id) : ¬ relation.Leads id id := by
  induction ends with
  | intro id _ ih =>
    intro cycle
    obtain ⟨first, link, rest⟩ := Relation.TransGen.head'_iff.1 cycle
    exact ih first link (Relation.TransGen.tail' rest link)

/-- How many entities lie above. -/
def height (relation : Relation) (id : EntityId) : Nat :=
  (relation.ids.filter fun other => (relation.ancestors id).contains other).length

theorem Forest.height_lt {relation : Relation} (forest : relation.Forest) {child parent : EntityId}
    (link : relation.Links child parent) : relation.height parent < relation.height child := by
  have mem {id other : EntityId} : other ∈ relation.ids.filter
      (fun other => (relation.ancestors id).contains other) ↔ relation.Leads id other := by
    rw [List.mem_filter, mem_ids, ← Std.ExtTreeSet.mem_iff_contains, forest.mem_ancestors]
    refine ⟨And.right, fun leads => ⟨?_, leads⟩⟩
    obtain ⟨last, -, link⟩ := Relation.TransGen.tail'_iff.1 leads
    exact forest.grounded link
  have unique : (parent :: relation.ids.filter
      fun other => (relation.ancestors parent).contains other).Nodup :=
    List.nodup_cons.2
      ⟨fun cycle => forest.acyclic parent (mem.1 cycle), relation.nodup_ids.filter _⟩
  refine (unique.subperm fun other member => ?_).length_le
  rcases List.mem_cons.1 member with rfl | higher
  · exact mem.2 (.single link)
  · exact mem.2 (.head link (mem.1 higher))

/-- Climbing comes to an end in a forest. -/
theorem Forest.acc {relation : Relation} (forest : relation.Forest) (id : EntityId) :
    Acc (fun parent child => relation.Links child parent) id :=
  (Subrelation.wf (fun link => forest.height_lt link)
    (InvImage.wf relation.height Nat.lt_wfRel.wf)).apply id

theorem checkCycles_eq_ok {relation : Relation} :
    relation.checkCycles = .ok () ↔ ∀ id, relation.contains id → id ∈ relation.topological := by
  unfold checkCycles
  simp only
  split
  · rename_i id found
    have missing := List.find?_some found
    have present := mem_ids.1 (List.mem_of_find?_eq_some found)
    simp only [Bool.not_eq_true', Std.ExtTreeSet.contains_ofList] at missing
    refine ⟨fun impossible => by simp at impossible, fun all => ?_⟩
    exact absurd (all id present) (by simpa using missing)
  · rename_i found
    refine ⟨fun _ id present => ?_, fun _ => rfl⟩
    have listed := List.find?_eq_none.1 found id (mem_ids.2 present)
    simpa [Std.ExtTreeSet.contains_ofList] using listed

/-- With links that lead to entities of the relation, the check finds the cycles. -/
theorem checkCycles_iff {relation : Relation} (named : relation.Named)
    (grounded : ∀ {child parent : EntityId}, relation.Links child parent →
      relation.contains parent) :
    relation.checkCycles = .ok () ↔ ∀ id : EntityId, ¬ relation.Leads id id := by
  rw [checkCycles_eq_ok]
  obtain ⟨sorted, left⟩ := named.topological
  constructor
  · intro listed id cycle
    obtain ⟨first, link, -⟩ := Relation.TransGen.head'_iff.1 cycle
    have ends := sorted.acc grounded (by simp) id (listed id link.contains)
    exact not_leads_of_acc ends cycle
  · intro acyclic id present
    by_contra unlisted
    have ends := Forest.acc ⟨named, grounded, acyclic⟩ id
    induction ends with
    | intro id _ ih =>
      obtain ⟨parent, linked, out⟩ := left id present unlisted
      obtain ⟨link, present⟩ := mem_above.1 linked
      exact ih parent link present out

end Relation

end ConceptLaws
