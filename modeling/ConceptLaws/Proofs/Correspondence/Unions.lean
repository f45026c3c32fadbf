import ConceptLaws.Correspondence.Merging
import ConceptLaws.Proofs.Correspondence.Matcher
import ConceptLaws.Proofs.Correspondence.Planning

/-! Unions.
Two open correspondences of a law are united when their deep predicates are different, no
correspondence covers these yet, their predicates are in no conflict, and together they stay within
a predicate set. -/

namespace ConceptLaws

namespace Correspondence

/-- What is recorded without conflict is there afterwards. -/
theorem entityOf_recordAll {map later : Correspondence} {pairs : List Pair}
    (recorded : map.recordAll? pairs = some later) :
    ∀ pair ∈ pairs, later.entityOf[pair.node]? = some pair.entity := by
  induction pairs generalizing map with
  | nil => simp
  | cons first rest ih =>
    unfold recordAll? at recorded
    split at recorded
    · simp at recorded
    rename_i fine
    refine List.forall_mem_cons.2 ⟨(stays_recordAll recorded).kept _ _ ?_, ih recorded⟩
    cases fits : map.admission first with
    | conflict => exact (fine fits).elim
    | free => exact entityOf_record (admission_eq_free fits).1 (admission_eq_free fits).2
    | present => exact (map.stays_record first).kept _ _ (admission_eq_present fits).2

/-- Pairs among which no node has two entities and no entity has two nodes can be recorded one after
the other. -/
theorem exists_recordAll {held : LawNodeId → EntityId → Prop}
    (functional : ∀ node first second, held node first → held node second → first = second)
    (injective : ∀ first second entity, held first entity → held second entity → first = second)
    {pairs : List Pair} (among : ∀ pair ∈ pairs, held pair.node pair.entity) :
    ∀ {map : Correspondence}, map.Paired →
      (∀ (node : LawNodeId) (entity : EntityId), map.entityOf[node]? = some entity →
        held node entity) → ∃ later, map.recordAll? pairs = some later := by
  induction pairs with
  | nil => exact fun {map} _ _ => ⟨map, rfl⟩
  | cons first rest ih =>
    intro map paired within
    have here := among first List.mem_cons_self
    have fits : map.admission first ≠ .conflict := by
      unfold admission
      cases ofEntity : map.nodeOf[first.entity]? with
      | none =>
        cases ofNode : map.entityOf[first.node]? with
        | none => simp
        | some other =>
          obtain rfl := functional first.node other first.entity (within first.node other ofNode) here
          cases ofEntity.symm.trans ((paired first.entity first.node).2 ofNode)
      | some node =>
        have back := (paired first.entity node).1 ofEntity
        obtain rfl := injective node first.node first.entity (within node first.entity back) here
        rw [back]
        simp
    unfold recordAll?
    split
    · rename_i conflict
      exact (fits conflict).elim
    · refine ih (fun pair member => among pair (List.mem_cons_of_mem first member))
        ((map.stays_record first).paired paired) fun node entity present => ?_
      rcases mapped_record present with before | new
      · exact within node entity before
      · rw [new] at here
        exact here

/-- How the predicates of two correspondences lie in the predicate sets of their law. -/
def jointCoverage (catalog : Catalog) (left right : Correspondence) : Coverage :=
  catalog.coverage left.law (left.predicateNodes catalog ++ right.predicateNodes catalog)

end Correspondence

namespace Matcher

/-- A correspondence that covers pairs is registered at each of them. -/
theorem registered_of_covering {matcher : Matcher} {pairs : List Pair} {id : MapId}
    (covers : id ∈ matcher.covering pairs) : ∀ pair ∈ pairs, id ∈ matcher.registered pair := by
  cases pairs with
  | nil => simp
  | cons first rest =>
    obtain ⟨member, others⟩ := List.mem_filter.1 covers
    refine List.forall_mem_cons.2 ⟨Std.ExtTreeSet.mem_toList.1 member, fun pair listed => ?_⟩
    exact Std.ExtTreeSet.mem_iff_contains.2 (List.all_eq_true.1 others pair listed)

theorem covering_empty (maxChecks : Nat) (pairs : List Pair) :
    (empty maxChecks).covering pairs = [] := by
  cases pairs with
  | nil => rfl
  | cons first rest => simp [covering, mapsAt, registered, empty]

/-- An open correspondence of the same law is a candidate. -/
theorem mem_candidates {matcher : Matcher}
    (named : ∀ id map, matcher.get? id = some map → map.id = id) {map other : Correspondence}
    {id : MapId} (found : matcher.get? id = some other) (law : other.law = map.law)
    (open_ : other.satisfied = false) (different : id ≠ map.id) : id ∈ matcher.candidates map := by
  have same := named id other found
  unfold candidates
  rw [List.mem_append]
  by_cases shared : id ∈ map.intersections
  · exact Or.inl (Std.ExtTreeSet.mem_toList.2 shared)
  · refine Or.inr (List.mem_map.2 ⟨other, List.mem_filter.2 ⟨mem_toList.2 ⟨id, found⟩, ?_⟩, same⟩)
    have unlisted : map.intersections.contains id = false :=
      Bool.eq_false_iff.2 (mt Std.ExtTreeSet.mem_iff_contains.2 shared)
    simp [law, open_, same, different, unlisted]

/-- Two correspondences are united. -/
structure Unites (matcher : Matcher) (catalog : Catalog) (left right merged : Correspondence)
    (fills : Bool) : Prop where
  law : right.law = left.law
  openLeft : left.satisfied = false
  openRight : right.satisfied = false
  apart : ∀ node ∈ left.deepPredicates, node ∉ right.deepPredicates
  uncovered : ∃ deepLeft deepRight, left.deepPairs? = some deepLeft ∧
    right.deepPairs? = some deepRight ∧ matcher.covering (deepLeft ++ deepRight) = []
  inside : Correspondence.jointCoverage catalog left right ≠ .outside
  exact : fills = (Correspondence.jointCoverage catalog left right == .exact)
  recorded : ∃ base, (Correspondence.empty left.law).recordAll?
      (left.predicatePairs catalog ++ right.predicatePairs catalog) = some base ∧
    merged = { base with
      deepPredicates := left.deepPredicates.insertMany right.deepPredicates.toList }

theorem union?_eq_some {matcher : Matcher} {catalog : Catalog} {left right merged : Correspondence}
    {fills : Bool} : matcher.union? catalog left right = some (merged, fills) ↔
      matcher.Unites catalog left right merged fills := by
  constructor
  · intro united
    unfold union? at united
    split at united
    · simp at united
    rename_i fit
    split at united
    · simp at united
    rename_i apart
    obtain ⟨deepLeft, pairsLeft, united⟩ := Option.bind_eq_some_iff.1 united
    obtain ⟨deepRight, pairsRight, united⟩ := Option.bind_eq_some_iff.1 united
    split at united
    · simp at united
    rename_i uncovered
    dsimp only at united
    split at united
    · simp at united
    rename_i inside
    obtain ⟨base, recorded, united⟩ := Option.bind_eq_some_iff.1 united
    obtain ⟨rfl, rfl⟩ := Prod.mk.inj (Option.some.inj united)
    simp only [bne_iff_ne, ne_eq, Bool.or_eq_true, not_or, Decidable.not_not,
      Bool.not_eq_true] at fit
    refine ⟨fit.1.1.symm, fit.1.2, fit.2, fun node inLeft inRight => apart ?_,
      ⟨deepLeft, deepRight, pairsLeft, pairsRight, by simpa using uncovered⟩, inside, rfl,
      base, recorded, rfl⟩
    exact List.any_eq_true.2 ⟨node, Std.ExtTreeSet.mem_toList.2 inLeft,
      Std.ExtTreeSet.mem_iff_contains.1 inRight⟩
  · rintro ⟨law, openLeft, openRight, apart, ⟨deepLeft, deepRight, pairsLeft, pairsRight, uncovered⟩,
      inside, rfl, base, recorded, rfl⟩
    have different : left.deepPredicates.toList.any right.deepPredicates.contains = false := by
      rw [List.any_eq_false]
      intro node listed
      simpa using apart node (Std.ExtTreeSet.mem_toList.1 listed)
    have within : ¬catalog.coverage left.law
        (left.predicateNodes catalog ++ right.predicateNodes catalog) = .outside := inside
    unfold union?
    rw [if_neg (by simp [law, openLeft, openRight]), if_neg (by simp [different]), pairsLeft,
      pairsRight]
    simp only [Option.bind_eq_bind, Option.bind_some]
    rw [uncovered, if_neg (by simp), if_neg within, recorded]
    rfl

namespace Unites

variable {matcher : Matcher} {catalog : Catalog} {left right merged : Correspondence} {fills : Bool}

/-- A union is made from nothing by recording, except for its deep predicates. -/
theorem stays (unites : matcher.Unites catalog left right merged fills) :
    ∃ base, (Correspondence.empty left.law).Stays base ∧ merged = { base with
      deepPredicates := left.deepPredicates.insertMany right.deepPredicates.toList } := by
  obtain ⟨base, recorded, same⟩ := unites.recorded
  exact ⟨base, Correspondence.stays_recordAll recorded, same⟩

theorem law_merged (unites : matcher.Unites catalog left right merged fills) :
    merged.law = left.law := by
  obtain ⟨base, stays, rfl⟩ := unites.stays
  exact stays.law

theorem satisfied_merged (unites : matcher.Unites catalog left right merged fills) :
    merged.satisfied = false := by
  obtain ⟨base, stays, rfl⟩ := unites.stays
  exact stays.satisfied

theorem paired_merged (unites : matcher.Unites catalog left right merged fills) :
    merged.Paired := by
  obtain ⟨base, stays, rfl⟩ := unites.stays
  exact stays.paired (Correspondence.paired_empty left.law)

/-- A union is built from the deep predicates of both parts. -/
theorem mem_deepPredicates (unites : matcher.Unites catalog left right merged fills)
    {deep : LawNodeId} : deep ∈ merged.deepPredicates ↔
      deep ∈ left.deepPredicates ∨ deep ∈ right.deepPredicates := by
  obtain ⟨base, stays, rfl⟩ := unites.stays
  simp [Std.ExtTreeSet.mem_insertMany_list]

/-- A union has all predicates of its parts. -/
theorem entityOf_merged (unites : matcher.Unites catalog left right merged fills) {pair : Pair}
    (listed : pair ∈ left.predicatePairs catalog ++ right.predicatePairs catalog) :
    merged.entityOf[pair.node]? = some pair.entity := by
  obtain ⟨base, recorded, rfl⟩ := unites.recorded
  exact Correspondence.entityOf_recordAll recorded pair listed

end Unites

end Matcher

end ConceptLaws
