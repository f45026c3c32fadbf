import ConceptLaws.Proofs.Catalog.Valid
import Mathlib.Data.List.Perm.Subperm
import Mathlib.Logic.Relation

/-! Lineages.
The lineage of a concept lists what it inherits from, with parents before children and the concept
itself last. The search for it fails exactly if it comes upon a cycle: the concepts on the way are
distinct, so there are turns enough for all of them. -/

namespace ConceptLaws

namespace Definition

/-- A concept of the definition names the other one among its parents. -/
def Inherits (definition : Definition) (concept parent : ConceptId) : Prop :=
  ∃ found ∈ definition.concepts, found.id = concept ∧ parent ∈ found.parents

/-- Inheritance leads from a concept to another one or to itself. -/
def Ancestor (definition : Definition) : ConceptId → ConceptId → Prop :=
  Relation.ReflTransGen definition.Inherits

/-- Every concept comes once, and after its parents. -/
inductive Lineal (definition : Definition) : List ConceptId → Prop where
  | nil : Lineal definition []
  | snoc {order : List ConceptId} {id : ConceptId} (earlier : Lineal definition order)
      (new : id ∉ order) (parents : ∀ parent, definition.Inherits id parent → parent ∈ order) :
      Lineal definition (order ++ [id])

namespace Lineal

variable {definition : Definition} {order : List ConceptId}

theorem nodup (lineal : Lineal definition order) : order.Nodup := by
  induction lineal with
  | nil => exact .nil
  | snoc _ new _ ih =>
    exact List.nodup_append'.2 ⟨ih, List.nodup_singleton _, List.disjoint_singleton.2 new⟩

theorem mem_of_inherits (lineal : Lineal definition order) {id parent : ConceptId}
    (member : id ∈ order) (inherits : definition.Inherits id parent) : parent ∈ order := by
  induction lineal with
  | nil => cases member
  | snoc _ _ parents ih =>
    rcases List.mem_append.1 member with before | last
    · exact List.mem_append_left _ (ih before)
    · obtain rfl := List.mem_singleton.1 last
      exact List.mem_append_left _ (parents parent inherits)

theorem mem_of_ancestor (lineal : Lineal definition order) {id ancestor : ConceptId}
    (member : id ∈ order) (above : definition.Ancestor id ancestor) : ancestor ∈ order := by
  induction above with
  | refl => exact member
  | tail _ inherits ih => exact lineal.mem_of_inherits ih inherits

/-- Parents come before. -/
theorem mem_before (lineal : Lineal definition order) {before after : List ConceptId}
    {id parent : ConceptId} (split : order = before ++ id :: after)
    (inherits : definition.Inherits id parent) : parent ∈ before := by
  induction lineal generalizing after with
  | nil => simp at split
  | @snoc order last _ _ parents ih =>
    rcases List.eq_nil_or_concat after with rfl | ⟨rest, final, rfl⟩
    · obtain ⟨rfl, same⟩ := List.append_inj' split rfl
      obtain rfl := List.head_eq_of_cons_eq same
      exact parents parent inherits
    · rw [List.concat_eq_append, ← List.cons_append, ← List.append_assoc] at split
      exact ih (List.append_inj' split rfl).1

/-- Nothing in the list inherits from itself. -/
theorem acyclic (lineal : Lineal definition order) {id : ConceptId} (member : id ∈ order) :
    ¬ Relation.TransGen definition.Inherits id id := by
  induction lineal with
  | nil => cases member
  | @snoc order last earlier new parents ih =>
    rcases List.mem_append.1 member with before | here
    · exact ih before
    obtain rfl := List.mem_singleton.1 here
    intro cycle
    -- The parents of the last one are earlier, and whoever is earlier has its ancestors there.
    obtain ⟨first, inherits, back⟩ := Relation.TransGen.head'_iff.1 cycle
    exact new (earlier.mem_of_ancestor (parents first inherits) back)

end Lineal

/-! ## Searching -/

/-- The parents of a concept; an unknown one has none. -/
def parentsOf (definition : Definition) (id : ConceptId) : List ConceptId :=
  ((definition.concept? id).map Concept.parents).getD []

variable {definition : Definition} (distinct : (definition.concepts.map Concept.id).Nodup)

include distinct in
theorem mem_parentsOf {id parent : ConceptId} :
    parent ∈ definition.parentsOf id ↔ definition.Inherits id parent := by
  unfold parentsOf Inherits
  constructor
  · intro member
    cases found : definition.concept? id with
    | none => simp [found] at member
    | some concept =>
      rw [found, Option.map_some, Option.getD_some] at member
      unfold concept? at found
      exact ⟨concept, List.mem_of_find?_eq_some found, by simpa using List.find?_some found, member⟩
  · rintro ⟨concept, member, rfl, inherits⟩
    have found : definition.concept? concept.id = some concept := find?_of_nodup distinct member
    simpa [found] using inherits

/-- What the search for the ancestors of a concept adds to an order: ancestors of the concept that
are not on the way to it. -/
structure Completes (definition : Definition) (below order : List ConceptId) (id : ConceptId)
    (added : List ConceptId) : Prop where
  lineal : Lineal definition (order ++ added)
  above : ∀ other ∈ added, definition.Ancestor id other ∧ other ∉ below

/-- The ancestors of all parents are appended one after the other. -/
theorem completes_foldlM {depth : Nat} {below : List ConceptId} {id : ConceptId}
    (step : ∀ {order result : List ConceptId} {parent : ConceptId}, Lineal definition order →
      definition.appendLineage depth below order parent = .ok result →
        ∃ added, result = order ++ added ∧ parent ∈ result ∧
          Completes definition below order parent added)
    (parents : List ConceptId) (inherited : ∀ parent ∈ parents, definition.Inherits id parent) :
    ∀ {order result : List ConceptId}, Lineal definition order →
      parents.foldlM (definition.appendLineage depth below) order = .ok result →
        ∃ added, result = order ++ added ∧ (∀ parent ∈ parents, parent ∈ result) ∧
          Completes definition below order id added := by
  induction parents with
  | nil =>
    intro order result lineal done
    obtain rfl := Except.ok.inj done
    exact ⟨[], by simp, by simp, by simpa using lineal, by simp⟩
  | cons first rest ih =>
    intro order result lineal done
    rw [List.foldlM_cons] at done
    obtain ⟨middle, head, tail⟩ := bind_eq_ok.1 done
    obtain ⟨here, inheritedLater⟩ := List.forall_mem_cons.1 inherited
    obtain ⟨added, rfl, member, first⟩ := step lineal head
    obtain ⟨more, rfl, members, later⟩ := ih inheritedLater first.lineal tail
    refine ⟨added ++ more, List.append_assoc .., List.forall_mem_cons.2
      ⟨List.mem_append_left _ member, members⟩,
      List.append_assoc order added more ▸ later.lineal, ?_⟩
    intro other new
    rcases List.mem_append.1 new with early | late
    · exact ⟨.head here (first.above other early).1, (first.above other early).2⟩
    · exact later.above other late

include distinct in
/-- A search that succeeds appends the missing ancestors, the concept itself last. -/
theorem appendLineage_eq_ok (depth : Nat) : ∀ {below order result : List ConceptId}
    {id : ConceptId}, Lineal definition order →
      definition.appendLineage depth below order id = .ok result →
        ∃ added, result = order ++ added ∧ id ∈ result ∧ Completes definition below order id added ∧
          (id ∉ order → result.getLast? = some id) := by
  induction depth with
  | zero =>
    intro below order result id _ done
    simp [appendLineage] at done
  | succ depth ih =>
    intro below order result id lineal done
    unfold appendLineage at done
    split at done
    · rename_i known
      have member := List.contains_iff_mem.1 known
      obtain rfl := Except.ok.inj done
      exact ⟨[], by simp, member, ⟨by simpa using lineal, by simp⟩, (absurd member ·)⟩
    rename_i new
    split at done
    · cases done
    rename_i untrodden
    rw [List.contains_iff_mem] at new untrodden
    dsimp only at done
    split at done
    · cases done
    rename_i middle folded
    obtain rfl := Except.ok.inj done
    have inherited : ∀ parent ∈ definition.parentsOf id, definition.Inherits id parent :=
      fun parent => (mem_parentsOf distinct).1
    obtain ⟨added, rfl, members, completes⟩ := completes_foldlM
      (fun lineal done => by
        obtain ⟨added, same, member, completes, -⟩ := ih lineal done
        exact ⟨added, same, member, completes⟩)
      (definition.parentsOf id) inherited lineal folded
    -- Nothing that was added is on the way, so the concept itself was not added below it.
    have absent : id ∉ order ++ added := by
      rw [List.mem_append, not_or]
      exact ⟨new, fun member => (completes.above id member).2 List.mem_cons_self⟩
    refine ⟨added ++ [id], List.append_assoc .., by simp, ⟨?_, fun other member => ?_⟩, by simp⟩
    · rw [← List.append_assoc]
      exact .snoc completes.lineal absent fun parent inherits =>
        members parent ((mem_parentsOf distinct).2 inherits)
    · rcases List.mem_append.1 member with early | last
      · obtain ⟨above, apart⟩ := completes.above other early
        exact ⟨above, fun known => apart (List.mem_cons_of_mem _ known)⟩
      · obtain rfl := List.mem_singleton.1 last
        exact ⟨.refl, untrodden⟩

theorem exists_foldlM {α β ε : Type} {step : β → α → Except ε β} {list : List α}
    (steps : ∀ item ∈ list, ∀ state, ∃ later, step state item = .ok later) (state : β) :
    ∃ later, list.foldlM step state = .ok later := by
  induction list generalizing state with
  | nil => exact ⟨state, rfl⟩
  | cons first rest ih =>
    obtain ⟨here, later⟩ := List.forall_mem_cons.1 steps
    obtain ⟨middle, head⟩ := here state
    obtain ⟨result, tail⟩ := ih later middle
    exact ⟨result, by rw [List.foldlM_cons, head]; exact tail⟩

include distinct in
/-- Without cycles the search succeeds: the concepts on the way are all different, so the way is no
longer than there are concepts. -/
theorem exists_appendLineage
    (grounded : ∀ concept parent, definition.Inherits concept parent →
      parent ∈ definition.concepts.map Concept.id)
    (acyclic : ∀ id, ¬ Relation.TransGen definition.Inherits id id) (depth : Nat) :
    ∀ {below order : List ConceptId} {id : ConceptId}, id ∈ definition.concepts.map Concept.id →
      below.Nodup → below ⊆ definition.concepts.map Concept.id →
      (∀ lower ∈ below, Relation.TransGen definition.Inherits lower id) →
      definition.concepts.length < depth + below.length →
      ∃ result, definition.appendLineage depth below order id = .ok result := by
  induction depth with
  | zero =>
    intro below order id _ unique listed _ enough
    have bound := (unique.subperm listed).length_le
    rw [List.length_map] at bound
    omega
  | succ depth ih =>
    intro below order id known unique listed lower enough
    unfold appendLineage
    split
    · exact ⟨order, rfl⟩
    rw [if_neg fun repeated => acyclic id (lower id (List.contains_iff_mem.1 repeated))]
    have steps : ∀ parent ∈ definition.parentsOf id, ∀ order,
        ∃ result, definition.appendLineage depth (id :: below) order parent = .ok result := by
      intro parent member order
      have inherits := (mem_parentsOf distinct).1 member
      refine ih (grounded id parent inherits) (List.nodup_cons.2 ⟨fun again => ?_, unique⟩)
        (List.cons_subset.2 ⟨known, listed⟩) (List.forall_mem_cons.2 ⟨.single inherits, ?_⟩) ?_
      · exact acyclic id (lower id again)
      · exact fun other member => .tail (lower other member) inherits
      · rw [List.length_cons]
        omega
    obtain ⟨result, folded⟩ := exists_foldlM steps order
    refine ⟨result ++ [id], ?_⟩
    have parents : ((definition.concept? id).map Concept.parents).getD [] =
        definition.parentsOf id := rfl
    dsimp only
    rw [parents, folded]

/-! ## Lineages -/

/-- The list holds a concept and its ancestors, each once and after its own parents, the concept
itself last. -/
structure IsLineage (definition : Definition) (id : ConceptId) (list : List ConceptId) :
    Prop where
  once : list.Nodup
  all : ∀ ancestor : ConceptId, ancestor ∈ list ↔ definition.Ancestor id ancestor
  later : ∀ (before after : List ConceptId) (concept : ConceptId),
    list = before ++ concept :: after →
      ∀ parent : ConceptId, definition.Inherits concept parent → parent ∈ before
  last : list.getLast? = some id

include distinct in
theorem lineage_eq_ok {id : ConceptId} {list : List ConceptId}
    (found : definition.lineage id = .ok list) :
    definition.IsLineage id list ∧ Lineal definition list := by
  obtain ⟨added, same, member, completes, last⟩ := appendLineage_eq_ok distinct _ .nil found
  rw [List.nil_append] at same
  obtain rfl := same
  have lineal : Lineal definition list := completes.lineal
  refine ⟨⟨lineal.nodup, fun ancestor => ?_, fun before after concept split parent => ?_,
    last List.not_mem_nil⟩, lineal⟩
  · exact ⟨fun listed => (completes.above ancestor listed).1, lineal.mem_of_ancestor member⟩
  · exact lineal.mem_before split

include distinct in
/-- All concepts have lineages exactly if none inherits from itself. -/
theorem exists_lineage_iff (grounded : ∀ concept parent, definition.Inherits concept parent →
      parent ∈ definition.concepts.map Concept.id) :
    (∀ concept ∈ definition.concepts, ∃ list, definition.lineage concept.id = .ok list) ↔
      ∀ id, ¬ Relation.TransGen definition.Inherits id id := by
  constructor
  · intro found id cycle
    obtain ⟨parent, ⟨concept, member, rfl, -⟩, -⟩ := Relation.TransGen.head'_iff.1 cycle
    obtain ⟨list, ok⟩ := found concept member
    obtain ⟨whole, lineal⟩ := lineage_eq_ok distinct ok
    exact lineal.acyclic ((whole.all _).2 .refl) cycle
  · intro acyclic concept member
    refine exists_appendLineage distinct grounded acyclic _ (List.mem_map_of_mem member) .nil
      (List.nil_subset _) (by simp) ?_
    simp

/-- Lineages are put into a table one after the other; of concepts with one identifier they are the
same. -/
theorem foldlM_lineage_eq_ok (concepts : List Concept) :
    ∀ {start table : Std.ExtTreeMap ConceptId (List ConceptId)},
      concepts.foldlM (fun table concept =>
        (definition.lineage concept.id).map (table.insert concept.id)) start = .ok table →
      (∀ concept ∈ concepts, ∃ list, definition.lineage concept.id = .ok list ∧
        table[concept.id]? = some list) ∧
      ∀ id : ConceptId, id ∉ concepts.map Concept.id → table[id]? = start[id]? := by
  induction concepts with
  | nil =>
    intro start table done
    obtain rfl := Except.ok.inj done
    simp
  | cons first rest ih =>
    intro start table done
    rw [List.foldlM_cons] at done
    obtain ⟨middle, head, tail⟩ := bind_eq_ok.1 done
    obtain ⟨later, others⟩ := ih tail
    cases found : definition.lineage first.id with
    | error fault => simp [found, Except.map] at head
    | ok list =>
      rw [found] at head
      obtain rfl := Except.ok.inj head
      refine ⟨List.forall_mem_cons.2 ⟨⟨list, found, ?_⟩, later⟩, fun id absent => ?_⟩
      · by_cases again : first.id ∈ rest.map Concept.id
        · obtain ⟨concept, member, same⟩ := List.mem_map.1 again
          obtain ⟨other, ok, held⟩ := later concept member
          rw [same] at ok held
          rw [held, Except.ok.inj (found.symm.trans ok)]
        · rw [others first.id again, Std.ExtTreeMap.getElem?_insert_self]
      · rw [List.map_cons, List.mem_cons, not_or] at absent
        rw [others id absent.2, Std.ExtTreeMap.getElem?_insert]
        simp [Ne.symm absent.1]

/-- The table of all lineages. -/
theorem lineages_eq_ok {table : Std.ExtTreeMap ConceptId (List ConceptId)}
    (made : definition.lineages = .ok table) :
    (∀ concept ∈ definition.concepts, ∃ list, definition.lineage concept.id = .ok list ∧
      table[concept.id]? = some list) ∧
    ∀ id : ConceptId, id ∉ definition.concepts.map Concept.id → table[id]? = none := by
  obtain ⟨listed, others⟩ := foldlM_lineage_eq_ok definition.concepts made
  exact ⟨listed, fun id absent => by simp [others id absent]⟩

theorem exists_lineages_iff : (∃ table, definition.lineages = .ok table) ↔
    ∀ concept ∈ definition.concepts, ∃ list, definition.lineage concept.id = .ok list := by
  constructor
  · rintro ⟨table, made⟩ concept member
    obtain ⟨list, found, -⟩ := (lineages_eq_ok made).1 concept member
    exact ⟨list, found⟩
  · intro found
    refine exists_foldlM (fun concept member table => ?_) ∅
    obtain ⟨list, ok⟩ := found concept member
    exact ⟨table.insert concept.id list, by rw [ok]; rfl⟩

end Definition

end ConceptLaws
