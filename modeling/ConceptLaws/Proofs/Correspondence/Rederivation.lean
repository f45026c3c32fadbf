import ConceptLaws.Proofs.Correspondence.Exhaustion

/-! Deriving again.
A pass that has checks left in the end leaves a relation in which every correspondence that can be
derived finds its conclusions. So another pass that starts without correspondences makes the same
ones again, and no entity. -/

namespace ConceptLaws

open Correspondence

variable {catalog : Catalog} {relation : Relation} {maxChecks : Nat}

namespace Matcher

variable {matcher : Matcher} {options : PassOptions} {dirty : Std.ExtTreeSet EntityId}

/-- A pass over a firm relation that has checks left in the end concludes it, if what it appended is
apart. -/
theorem concluded_evaluate (valid : catalog.Valid) (few : catalog.FewDeep) (firm : relation.Firm)
    (blank : matcher.prepare options = empty maxChecks) (small : maxChecks < UInt64.size)
    (plain : options.tentative = false)
    (spare : (matcher.evaluate relation catalog options dirty).matcher.checks < maxChecks)
    (room : ∀ law ∈ catalog.laws, relation.nextId.toNat +
      (matcher.evaluate relation catalog options dirty).outcome.appended.length + law.nodes.length <
        UInt64.size)
    (apart : (matcher.evaluate relation catalog options dirty).relation.Apart
      (matcher.evaluate relation catalog options dirty).outcome.appended) :
    (matcher.evaluate relation catalog options dirty).relation.Concluded catalog ∧
      (matcher.evaluate relation catalog options dirty).relation.Firm := by
  have start : PassState.Searched ⟨matcher.prepare options, relation, .empty⟩ catalog
      ((matcher.prepare options).opening relation True) := by
    rw [blank]
    exact searched_empty firm maxChecks catalog True
  have limit : (matcher.passed relation catalog options dirty).matcher.maxChecks = maxChecks :=
    (PassState.advances_rounds _ _ _ _ _ _).limit.trans (by rw [blank]; rfl)
  have left_ : (matcher.passed relation catalog options dirty).Spare := by
    unfold PassState.Spare
    rw [limit]
    exact spare
  obtain ⟨searched, holds⟩ := searched_passed valid few plain start
    (by rw [blank]; exact (Nat.zero_add maxChecks).symm ▸ small) left_ room
    fun _ => apart.of_extends (Relation.extends_recomputeDeep _) (List.Subset.refl _)
  have same := (matcher.passed relation catalog options dirty).relation.sameEntities_recomputeDeep
  have firmLast := searched.traced.counted.firm
  rw [relation_evaluate]
  exact ⟨(PassState.concluded_of_holds trivial holds).of_sameEntities valid same firmLast,
    same.firm firmLast⟩

/-- After a pass that accepts what it appends and has checks left in the end, a pass that starts
without correspondences appends nothing, and leaves the entities as they were. -/
theorem appends_nothing_again (valid : catalog.Valid) (few : catalog.FewDeep) (firm : relation.Firm)
    (blank : matcher.prepare options = empty maxChecks) (small : maxChecks < UInt64.size)
    (plain : options.tentative = false) {first : PassState}
    (ran : matcher.evaluate relation catalog options dirty = first)
    (spare : first.matcher.checks < maxChecks)
    (room : ∀ law ∈ catalog.laws, relation.nextId.toNat + first.outcome.appended.length +
      law.nodes.length < UInt64.size)
    (apart : first.relation.Apart first.outcome.appended) {again : PassOptions}
    (reset : again.reset = true) (changed : Std.ExtTreeSet EntityId) :
    (first.matcher.evaluate first.relation catalog again changed).outcome.appended = [] ∧
      first.relation.SameEntities
        (first.matcher.evaluate first.relation catalog again changed).relation := by
  subst ran
  obtain ⟨concluded, firmThen⟩ := concluded_evaluate valid few firm blank small plain spare room apart
  refine concluded.idle valid firmThen ?_ changed
  rw [prepare_of_reset _ reset]
  rfl

end Matcher

/-! ## Letters -/

/-- The catalog of a definition, made without the checks. -/
def Catalog.unchecked (definition : Definition) : Catalog :=
  ⟨definition, definition.lineages.toOption.getD ∅,
    Fingerprint.ofContent Fingerprint.catalogDomain definition.toCbor⟩

theorem Catalog.valid_unchecked {definition : Definition}
    (concepts : definition.checkConcepts = .ok ()) (lineages : definition.lineages.isOk = true)
    (laws : definition.checkLaws [] [] definition.laws = .ok ()) : (unchecked definition).Valid := by
  refine ⟨definition, ?_⟩
  unfold ofDefinition unchecked
  rw [concepts, laws]
  cases table : definition.lineages with
  | error fault => simp [table, Except.isOk, Except.toBool] at lineages
  | ok found => rfl

/-- Six letters, and a concept that is three of them at once. -/
def letters : List Concept :=
  [⟨⟨1⟩, "p", [], ∅, none, false⟩, ⟨⟨2⟩, "q", [], ∅, none, false⟩, ⟨⟨3⟩, "r", [], ∅, none, false⟩,
    ⟨⟨4⟩, "s", [], ∅, none, false⟩, ⟨⟨5⟩, "t", [], ∅, none, false⟩, ⟨⟨6⟩, "u", [], ∅, none, false⟩,
    ⟨⟨7⟩, "pqr", [⟨1⟩, ⟨2⟩, ⟨3⟩], ∅, none, false⟩]

def letterNode (id concept : UInt64) (head reference : Option LawNodeId) : LawNode :=
  ⟨⟨id⟩, ⟨concept⟩, head, reference, .empty, none, none⟩

/-- A law with one predicate set, from which everything else follows. -/
def letterLaw (id : UInt64) (predicates : List LawNodeId) (nodes : List LawNode) : Law where
  id := ⟨id⟩
  name := ""
  nodes := nodes
  predicateSets := [(∅ : Std.ExtTreeSet LawNodeId).insertMany predicates]
  deepNodes := []

def letterRecord (id concept : UInt64) (head : Option EntityId) : EntityRecord :=
  ⟨⟨id⟩, ⟨concept⟩, head, none, .empty, none⟩

/-- From p and q follows r between them, and from r follows s below it. -/
def inTwoSteps : Catalog := Catalog.unchecked ⟨letters, [
  letterLaw 100 [⟨1⟩, ⟨2⟩] [letterNode 1 1 none none, letterNode 2 2 none none,
    letterNode 3 3 (some ⟨1⟩) (some ⟨2⟩)],
  letterLaw 200 [⟨11⟩] [letterNode 11 3 none none, letterNode 12 4 (some ⟨11⟩) none]]⟩

theorem valid_inTwoSteps : inTwoSteps.Valid := Catalog.valid_unchecked rfl rfl rfl

def letterRelation (records : List EntityRecord) : Relation :=
  (Relation.ofRecords records inTwoSteps).toOption.getD .empty

theorem firm_letterRelation {records : List EntityRecord}
    (passed : (Relation.ofRecords records inTwoSteps).isOk = true)
    (small : ∀ record ∈ records, record.id.toNat + 1 < UInt64.size) :
    (letterRelation records).Firm := by
  unfold letterRelation
  cases built : Relation.ofRecords records inTwoSteps with
  | error fault => simp [built, Except.isOk, Except.toBool] at passed
  | ok relation => exact Relation.firm_ofRecords built small

/-- A p and two q. -/
def threeLetters : Relation :=
  letterRelation [letterRecord 1 1 none, letterRecord 2 2 none, letterRecord 3 2 none]

theorem firm_threeLetters : threeLetters.Firm := firm_letterRelation rfl (by decide +kernel)

/-- Two r and two s follow, and no more in a second pass. -/
theorem appends_nothing_again_inTwoSteps :
    ((Matcher.empty 1000).evaluate threeLetters inTwoSteps .standard ∅).outcome.appended =
        [⟨4⟩, ⟨5⟩, ⟨6⟩, ⟨7⟩] ∧
      (((Matcher.empty 1000).evaluate threeLetters inTwoSteps .standard ∅).matcher.evaluate
        ((Matcher.empty 1000).evaluate threeLetters inTwoSteps .standard ∅).relation inTwoSteps
        { PassOptions.standard with reset := true } ∅).outcome.appended = [] := by
  refine ⟨by decide +kernel, ?_⟩
  exact (Matcher.appends_nothing_again valid_inTwoSteps (by decide +kernel) firm_threeLetters
    (Matcher.prepare_empty 1000 .standard) (by decide +kernel) rfl rfl (by decide +kernel)
    (by decide +kernel) (by decide +kernel) rfl ∅).1

/-- From p follows q, without a link. -/
def loose : Catalog := .unchecked ⟨letters, [
  letterLaw 100 [⟨1⟩] [letterNode 1 1 none none, letterNode 2 2 none none]]⟩

theorem valid_loose : loose.Valid := Catalog.valid_unchecked rfl rfl rfl

/-- What has no head is not looked for, and appended once more. -/
theorem not_forall_appends_nothing_again : ¬∀ (catalog : Catalog) (relation : Relation)
    (matcher : Matcher) (options again : PassOptions) (dirty changed : Std.ExtTreeSet EntityId),
    catalog.Valid → relation.Firm → options.tentative = false → again.reset = true →
      (matcher.evaluate relation catalog options dirty).matcher.checks < matcher.maxChecks →
      ((matcher.evaluate relation catalog options dirty).matcher.evaluate
        (matcher.evaluate relation catalog options dirty).relation catalog again
        changed).matcher.checks < matcher.maxChecks →
      ((matcher.evaluate relation catalog options dirty).matcher.evaluate
        (matcher.evaluate relation catalog options dirty).relation catalog again
        changed).outcome.appended = [] := by
  intro all
  have nothing := all loose threeLetters (Matcher.empty 1000) .standard
    { PassOptions.standard with reset := true } ∅ ∅ valid_loose firm_threeLetters rfl rfl
    (by decide +kernel) (by decide +kernel)
  exact absurd nothing (by decide +kernel)

/-! ## Each condition is needed -/

/-- Two passes have checks left in the end, and the second one appends something, although it starts
without correspondences. -/
def Matcher.AppendsAgain (matcher : Matcher) (relation : Relation) (catalog : Catalog) : Prop :=
  let first := matcher.evaluate relation catalog .standard ∅
  let second := first.matcher.evaluate first.relation catalog
    { PassOptions.standard with reset := true } ∅
  first.matcher.checks < matcher.maxChecks ∧ second.matcher.checks < matcher.maxChecks ∧
    second.outcome.appended ≠ []

instance (matcher : Matcher) (relation : Relation) (catalog : Catalog) :
    Decidable (matcher.AppendsAgain relation catalog) :=
  inferInstanceAs (Decidable (_ ∧ _ ∧ _ ≠ []))

/-- From p follow two q below it, and r between the two. -/
def twofold : Catalog := .unchecked ⟨letters, [
  letterLaw 100 [⟨1⟩] [letterNode 1 1 none none, letterNode 2 2 (some ⟨1⟩) none,
    letterNode 3 2 (some ⟨1⟩) none, letterNode 4 3 (some ⟨2⟩) (some ⟨3⟩)]]⟩

/-- From p, q and r follows t between p and r, and u between t and q. From s follows p below it. -/
def threefold : Catalog := .unchecked ⟨letters, [
  letterLaw 100 [⟨1⟩, ⟨2⟩, ⟨3⟩] [letterNode 1 1 none none, letterNode 2 2 none none,
    letterNode 3 3 none none, letterNode 4 5 (some ⟨1⟩) (some ⟨3⟩),
    letterNode 5 6 (some ⟨4⟩) (some ⟨2⟩)],
  letterLaw 200 [⟨11⟩] [letterNode 11 4 none none, letterNode 12 1 (some ⟨11⟩) none]]⟩

/-- From p and q follows r below p, and from s below r follows t below s. -/
def inTurn : Catalog := .unchecked ⟨letters, [
  letterLaw 100 [⟨1⟩, ⟨2⟩] [letterNode 1 1 none none, letterNode 2 2 none none,
    letterNode 3 3 (some ⟨1⟩) none],
  letterLaw 200 [⟨11⟩, ⟨12⟩] [letterNode 11 3 none none, letterNode 12 4 (some ⟨11⟩) none,
    letterNode 13 5 (some ⟨12⟩) none]]⟩

/-- The second entity, an r below a p, is tentative. The s below it is nearer to the top than the q.
-/
def lateLetters : Relation :=
  (letterRelation [letterRecord 1 1 none, letterRecord 2 3 (some ⟨1⟩), letterRecord 3 4 (some ⟨2⟩),
    letterRecord 4 6 none, letterRecord 5 6 (some ⟨4⟩), letterRecord 6 6 (some ⟨5⟩),
    letterRecord 7 2 (some ⟨6⟩)]).update ⟨2⟩ fun entity =>
      { entity with provenance := { entity.provenance with appended := true, tentative := true } }

def crossedLetters : Relation :=
  letterRelation [letterRecord 1 1 none, letterRecord 2 4 none, letterRecord 3 7 none,
    letterRecord 4 3 none, letterRecord 5 2 (some ⟨3⟩)]

/-- The two q cannot be told apart. -/
theorem appendsAgain_twofold : twofold.Valid ∧ twofold.FewDeep ∧
    (Matcher.empty 1000).AppendsAgain threeLetters twofold :=
  ⟨Catalog.valid_unchecked rfl rfl rfl, by decide +kernel, by decide +kernel⟩

/-- Correspondences of a law with three deep predicates are not all found in the first pass. -/
theorem appendsAgain_threefold : threefold.Valid ∧ crossedLetters.Firm ∧
    (Matcher.empty 1000).AppendsAgain crossedLetters threefold :=
  ⟨Catalog.valid_unchecked rfl rfl rfl, firm_letterRelation rfl (by decide +kernel),
    by decide +kernel⟩

/-- When r is accepted in the first pass, s was already looked at. -/
theorem appendsAgain_inTurn : inTurn.Valid ∧ inTurn.FewDeep ∧
    (Matcher.empty 1000).AppendsAgain lateLetters inTurn :=
  ⟨Catalog.valid_unchecked rfl rfl rfl, by decide +kernel, by decide +kernel⟩

/-- What was checked before is not looked at again, until a pass starts without correspondences. -/
theorem appendsAgain_checked : ((Matcher.empty 1000).evaluate threeLetters inTwoSteps .standard
    ∅).matcher.AppendsAgain threeLetters inTwoSteps := by decide +kernel

end ConceptLaws
