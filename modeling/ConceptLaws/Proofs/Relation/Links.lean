import ConceptLaws.Proofs.Relation.Basic
import Mathlib.Data.List.Perm.Subperm
import Mathlib.Logic.Relation

/-! Links between entities.
A forest is a relation whose links lead to entities of the relation and never back to where they
start. In a forest, the ancestors of an entity are what its links lead to, and replacing the links
of one entity closes a cycle exactly if one of the new links leads back to it. -/

namespace ConceptLaws

theorem nodup_eraseDups {α : Type} [BEq α] [LawfulBEq α] (list : List α) :
    list.eraseDups.Nodup := by
  match list with
  | [] => simp
  | first :: rest =>
    rw [List.eraseDups_cons, List.nodup_cons]
    refine ⟨fun again => ?_, nodup_eraseDups _⟩
    simpa using (List.mem_filter.1 (List.mem_eraseDups.1 again)).2
  termination_by list.length
  decreasing_by exact Nat.lt_succ_of_le (List.length_filter_le _ _)

namespace Relation

/-- One entity names the other as its head or its reference. -/
def Links (relation : Relation) (child parent : EntityId) : Prop :=
  ∃ entity, relation.get? child = some entity ∧ parent ∈ entity.parents

/-- Following links from an entity leads to another, after one link at least. -/
def Leads (relation : Relation) : EntityId → EntityId → Prop := Relation.TransGen relation.Links

structure Forest (relation : Relation) : Prop where
  named : relation.Named
  grounded : ∀ {child parent : EntityId}, relation.Links child parent → relation.contains parent
  acyclic : ∀ id : EntityId, ¬ relation.Leads id id

theorem Links.contains {relation : Relation} {child parent : EntityId}
    (link : relation.Links child parent) : relation.contains child := by
  obtain ⟨entity, found, -⟩ := link
  exact contains_iff.2 ⟨entity, found⟩

/-- Fewer links make no new cycle. -/
theorem Leads.mono {relation later : Relation}
    (fewer : ∀ {child parent : EntityId}, later.Links child parent → relation.Links child parent)
    {start target : EntityId} (leads : later.Leads start target) : relation.Leads start target := by
  induction leads with
  | single link => exact .single (fewer link)
  | tail _ link ih => exact .tail ih (fewer link)

theorem ids_eq_map (relation : Relation) :
    relation.ids = relation.entities.toList.map Prod.fst := by
  unfold ids
  exact Std.ExtTreeMap.map_fst_toList_eq_keys.symm

theorem mem_ids {relation : Relation} {id : EntityId} :
    id ∈ relation.ids ↔ relation.contains id = true := by
  unfold ids contains
  rw [Std.ExtTreeMap.mem_keys, Std.ExtTreeMap.mem_iff_contains]

theorem nodup_ids (relation : Relation) : relation.ids.Nodup := Std.ExtTreeMap.nodup_keys

theorem length_ids (relation : Relation) : relation.ids.length = relation.size :=
  Std.ExtTreeMap.length_keys

/-- The entities are listed by the identifiers they carry. -/
theorem Named.map_id_toList {relation : Relation} (named : relation.Named) :
    relation.toList.map Entity.id = relation.ids := by
  rw [toList, values_eq_map, ids_eq_map, List.map_map]
  refine List.map_congr_left fun held member => ?_
  exact named held.1 held.2 (Std.ExtTreeMap.mem_toList_iff_getElem?_eq_some.1 member)

/-! ## Ancestors -/

/-- What an entity links to: nothing if it is not there. -/
theorem mem_linked {relation : Relation} {child parent : EntityId} :
    parent ∈ ((relation.get? child).map Entity.parents).getD [] ↔
      relation.Links child parent := by
  unfold Links
  cases relation.get? child with
  | none => simp
  | some entity => simp

/-- The part of the search that is done: what was met lies above the start, and so does what is
still to be followed; whatever was followed has its parents met. -/
structure Climbed (relation : Relation) (start : EntityId) (stack : List EntityId)
    (seen : Std.ExtTreeSet EntityId) : Prop where
  met : ∀ {id : EntityId}, id ∈ seen → relation.Leads start id
  stacked : ∀ id ∈ stack, id = start ∨ id ∈ seen
  followed : ∀ {id parent : EntityId}, id = start ∨ id ∈ seen → relation.Links id parent →
    id ∈ stack ∨ parent ∈ seen

theorem mem_unseen {relation : Relation} {current parent : EntityId}
    {seen : Std.ExtTreeSet EntityId} :
    parent ∈ ((((relation.get? current).map Entity.parents).getD []).filter
      fun parent => !seen.contains parent).eraseDups ↔
        relation.Links current parent ∧ parent ∉ seen := by
  rw [List.mem_eraseDups, List.mem_filter, mem_linked, Bool.not_eq_true',
    Std.ExtTreeSet.mem_iff_contains, Bool.not_eq_true]

/-- One turn follows the links of one entity. -/
theorem Climbed.turn {relation : Relation} {start current : EntityId} {stack unseen : List EntityId}
    {seen : Std.ExtTreeSet EntityId} (climbed : relation.Climbed start (current :: stack) seen)
    (new : ∀ parent, parent ∈ unseen ↔ relation.Links current parent ∧ parent ∉ seen) :
    relation.Climbed start (unseen ++ stack) (seen.insertMany unseen) where
  met {id} member := by
    rcases Std.ExtTreeSet.mem_insertMany_list.1 member with before | added
    · exact climbed.met before
    · have link := ((new id).1 (List.contains_iff_mem.1 added)).1
      rcases climbed.stacked current List.mem_cons_self with rfl | above
      · exact .single link
      · exact .tail (climbed.met above) link
  stacked id member := by
    rw [Std.ExtTreeSet.mem_insertMany_list]
    rcases List.mem_append.1 member with added | before
    · exact .inr (.inr (List.contains_iff_mem.2 added))
    · rcases climbed.stacked id (List.mem_cons_of_mem _ before) with same | known
      · exact .inl same
      · exact .inr (.inl known)
  followed {id parent} known link := by
    rw [Std.ExtTreeSet.mem_insertMany_list, List.contains_iff_mem]
    by_cases before : parent ∈ seen
    · exact .inr (.inl before)
    by_cases here : id = current
    · exact .inr (.inr ((new parent).2 ⟨here ▸ link, before⟩))
    have waiting (known : id = start ∨ id ∈ seen) : id ∈ stack := by
      rcases climbed.followed known link with listed | met
      · exact (List.mem_cons.1 listed).resolve_left here
      · exact absurd met before
    rcases known with same | added
    · exact .inl (List.mem_append_right _ (waiting (.inl same)))
    rcases Std.ExtTreeSet.mem_insertMany_list.1 added with known | added
    · exact .inl (List.mem_append_right _ (waiting (.inr known)))
    · exact .inl (List.mem_append_left _ (List.contains_iff_mem.1 added))

/-- The entities that the search has not met. -/
def unmet (relation : Relation) (seen : Std.ExtTreeSet EntityId) : List EntityId :=
  relation.ids.filter fun id => !seen.contains id

theorem mem_unmet {relation : Relation} {seen : Std.ExtTreeSet EntityId} {id : EntityId} :
    id ∈ relation.unmet seen ↔ relation.contains id = true ∧ id ∉ seen := by
  rw [unmet, List.mem_filter, mem_ids, Bool.not_eq_true', Std.ExtTreeSet.mem_iff_contains,
    Bool.not_eq_true]

/-- What comes on the stack is met for the first time. -/
theorem length_unmet_insertMany {relation : Relation} (forest : relation.Forest)
    {current : EntityId} {unseen : List EntityId} {seen : Std.ExtTreeSet EntityId}
    (unique : unseen.Nodup)
    (new : ∀ parent, parent ∈ unseen ↔ relation.Links current parent ∧ parent ∉ seen) :
    (relation.unmet (seen.insertMany unseen)).length + unseen.length ≤
      (relation.unmet seen).length := by
  have apart : List.Disjoint (relation.unmet (seen.insertMany unseen)) unseen := by
    intro id left added
    refine (mem_unmet.1 left).2 ?_
    exact Std.ExtTreeSet.mem_insertMany_list.2 (.inr (List.contains_iff_mem.2 added))
  have together : relation.unmet (seen.insertMany unseen) ++ unseen ⊆ relation.unmet seen := by
    intro id member
    rw [mem_unmet]
    rcases List.mem_append.1 member with left | added
    · obtain ⟨present, absent⟩ := mem_unmet.1 left
      exact ⟨present, fun known => absent (Std.ExtTreeSet.mem_insertMany_list.2 (.inl known))⟩
    · obtain ⟨link, absent⟩ := (new id).1 added
      exact ⟨forest.grounded link, absent⟩
  have unique := List.nodup_append'.2 ⟨relation.nodup_ids.filter _, unique, apart⟩
  rw [← List.length_append]
  exact (unique.subperm together).length_le

/-- Every turn takes one entity off the stack, so there are turns enough to empty it. -/
theorem mem_ancestorsFrom {relation : Relation} (forest : relation.Forest) {start target : EntityId}
    (turns : Nat) {stack : List EntityId} {seen : Std.ExtTreeSet EntityId}
    (climbed : relation.Climbed start stack seen)
    (room : stack.length + (relation.unmet seen).length ≤ turns) :
    target ∈ relation.ancestorsFrom turns stack seen ↔ relation.Leads start target := by
  have finished {seen : Std.ExtTreeSet EntityId} (climbed : relation.Climbed start [] seen) :
      target ∈ seen ↔ relation.Leads start target := by
    refine ⟨climbed.met, fun leads => ?_⟩
    have next {id parent : EntityId} (known : id = start ∨ id ∈ seen)
        (link : relation.Links id parent) : parent ∈ seen :=
      (climbed.followed known link).resolve_left List.not_mem_nil
    induction leads with
    | single link => exact next (.inl rfl) link
    | tail _ link ih => exact next (.inr ih) link
  induction turns generalizing stack seen with
  | zero =>
    obtain rfl := List.eq_nil_of_length_eq_zero (Nat.eq_zero_of_le_zero
      (Nat.le_trans (Nat.le_add_right _ _) room))
    exact finished climbed
  | succ turns ih =>
    cases stack with
    | nil => exact finished climbed
    | cons current stack =>
      have new (parent : EntityId) : parent ∈ _ ↔
          relation.Links current parent ∧ parent ∉ seen := mem_unseen
      refine ih (climbed.turn new) ?_
      have fewer := length_unmet_insertMany forest (nodup_eraseDups _) new
      rw [List.length_append]
      rw [List.length_cons] at room
      omega

theorem Forest.mem_ancestors {relation : Relation} (forest : relation.Forest)
    {start target : EntityId} :
    target ∈ relation.ancestors start ↔ relation.Leads start target := by
  unfold ancestors
  refine mem_ancestorsFrom forest _ ⟨fun member => ?_, fun id member => ?_, fun known link => ?_⟩ ?_
  · simp at member
  · exact .inl (List.mem_singleton.1 member)
  · exact .inl (List.mem_singleton.2 (known.resolve_right (by simp)))
  · have bound : (relation.unmet ∅).length ≤ relation.size :=
      relation.length_ids ▸ List.length_filter_le _ _
    rw [List.length_singleton]
    omega

/-! ## Replacing links -/

/-- The entity has new links; everything else is as it was. -/
structure Relinks (relation later : Relation) (id : EntityId) (parents : List EntityId) : Prop where
  here : ∀ {parent : EntityId}, later.Links id parent ↔ parent ∈ parents
  elsewhere : ∀ {child parent : EntityId}, child ≠ id →
    (later.Links child parent ↔ relation.Links child parent)

namespace Relinks

variable {relation later : Relation} {id : EntityId} {parents : List EntityId}
  (relinks : relation.Relinks later id parents)

include relinks

/-- Until it comes to the entity, a path follows links that stay. -/
theorem path_later {start : EntityId} (path : Relation.ReflTransGen relation.Links start id) :
    Relation.ReflTransGen later.Links start id := by
  induction path using Relation.ReflTransGen.head_induction_on with
  | refl => exact .refl
  | @head child _ link _ ih =>
    by_cases here : child = id
    · exact here ▸ .refl
    · exact .head ((relinks.elsewhere here).2 link) ih

/-- A path that uses a new link comes to the entity by old ones first. -/
theorem path_before {start target : EntityId}
    (path : Relation.ReflTransGen later.Links start target) :
    Relation.ReflTransGen relation.Links start target ∨
      ∃ parent ∈ parents, Relation.ReflTransGen relation.Links start id ∧
        Relation.ReflTransGen later.Links parent target := by
  induction path using Relation.ReflTransGen.head_induction_on with
  | refl => exact .inl .refl
  | @head child parent link rest ih =>
    by_cases here : child = id
    · subst here
      exact .inr ⟨parent, relinks.here.1 link, .refl, rest⟩
    · have old := (relinks.elsewhere here).1 link
      rcases ih with path | ⟨other, new, path, back⟩
      · exact .inl (.head old path)
      · exact .inr ⟨other, new, .head old path, back⟩

/-- New links close a cycle exactly if one of them leads back to where it starts. -/
theorem cycle_iff (acyclic : ∀ start : EntityId, ¬ relation.Leads start start) :
    (∃ start, later.Leads start start) ↔
      ∃ parent ∈ parents, parent = id ∨ relation.Leads parent id := by
  have back {parent : EntityId} : parent = id ∨ relation.Leads parent id ↔
      Relation.ReflTransGen relation.Links parent id := by
    rw [Relation.reflTransGen_iff_eq_or_transGen, eq_comm, Leads]
  simp only [back]
  constructor
  · rintro ⟨start, cycle⟩
    obtain ⟨first, link, rest⟩ := Relation.TransGen.head'_iff.1 cycle
    by_cases here : start = id
    · subst here
      refine ⟨first, relinks.here.1 link, ?_⟩
      rcases relinks.path_before rest with path | ⟨-, -, path, -⟩
      · exact path
      · exact path
    have old := (relinks.elsewhere here).1 link
    rcases relinks.path_before rest with path | ⟨parent, new, path, rest⟩
    · exact absurd (Relation.TransGen.head' old path) (acyclic start)
    refine ⟨parent, new, ?_⟩
    rcases relinks.path_before rest with round | ⟨-, -, round, -⟩
    · exact round.trans (.head old path)
    · exact round
  · rintro ⟨parent, new, path⟩
    exact ⟨id, Relation.TransGen.head' (relinks.here.2 new) (relinks.path_later path)⟩

end Relinks

end Relation

end ConceptLaws
