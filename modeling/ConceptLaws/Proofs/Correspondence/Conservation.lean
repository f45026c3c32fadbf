import ConceptLaws.Proofs.Correspondence.Flags
import ConceptLaws.Proofs.Correspondence.Numbering
import ConceptLaws.Proofs.Correspondence.Rederivation
import ConceptLaws.Proofs.Correspondence.Rollback

/-! Conservative passes.
A pass only adds: entities and correspondences stay, and those that are new are listed. Every turn
makes one correspondence at most; if it fills a predicate set it is marked satisfied under the flag
of the pass before any of its branches is appended, so that whatever it creates has that flag. The
statistics count what the lists hold. -/

namespace ConceptLaws

theorem Relation.enlarges_foldl_claim (map : Correspondence) (pairs : List Pair) :
    ∀ relation : Relation, relation.Enlarges (pairs.foldl
      (fun relation pair => relation.update pair.entity (Entity.claim map)) relation)
        map.tentative [] := by
  induction pairs with
  | nil => exact fun relation => relation.enlarges_of_get? (fun _ => rfl) map.tentative
  | cons first rest ih =>
    exact fun relation =>
      (relation.enlarges_update first.entity (Entity.spared_claim map)).trans (ih _)

/-- The statistics count what the lists of the outcome hold. -/
structure Outcome.Tallied (outcome : Outcome) : Prop where
  appended : outcome.stats.nodesAppended = outcome.appended.length
  satisfied : outcome.stats.mapsSatisfied = outcome.satisfied.length
  inferred : outcome.stats.commandsInferred = outcome.inferred.length

theorem Outcome.tallied_empty : Outcome.empty.Tallied := ⟨rfl, rfl, rfl⟩

namespace PassState

variable {context : PassContext} {state later first second third : PassState} {id : MapId}
  {map : Correspondence} {tentative : Bool} {events : List PassEvent}

/-- The relation is enlarged by the entities that the outcome lists in addition. -/
def Conserves (state later : PassState) (tentative : Bool) : Prop :=
  ∃ new, later.outcome.appended = state.outcome.appended ++ new ∧
    state.relation.Enlarges later.relation tentative new

theorem conserves_of_same (relation : ∀ id, later.relation.get? id = state.relation.get? id)
    (appended : later.outcome.appended = state.outcome.appended) (tentative : Bool) :
    state.Conserves later tentative :=
  ⟨[], by rw [appended, List.append_nil], Relation.enlarges_of_get? relation tentative⟩

theorem conserves_refl (state : PassState) (tentative : Bool) : state.Conserves state tentative :=
  conserves_of_same (fun _ => rfl) rfl tentative

theorem Conserves.trans (earlier : first.Conserves second tentative)
    (later : second.Conserves third tentative) : first.Conserves third tentative := by
  obtain ⟨new, listed, enlarges⟩ := earlier
  obtain ⟨others, listedToo, enlargesToo⟩ := later
  exact ⟨new ++ others, by rw [listedToo, listed, List.append_assoc], enlarges.trans enlargesToo⟩

/-! ## Branches -/

theorem conserves_commit (found : state.matcher.get? id = some map) (steps : List BranchStep)
    (root : BranchSlot) :
    state.Conserves (state.commit context id steps root).2 map.tentative := by
  unfold commit
  rw [found]
  dsimp only
  have adds : ((BranchProgress.start state.relation).run context.catalog map steps).2.Adds
      state.relation map.tentative :=
    (BranchProgress.adds_start state.relation map.tentative).run context.catalog steps
  generalize (BranchProgress.start state.relation).run context.catalog map steps = outcome at *
  obtain ⟨succeeded, progress⟩ := outcome
  cases succeeded with
  | false =>
    refine conserves_of_same (fun query => ?_) ?_ map.tentative
    · rfl
    · rfl
  | true =>
    have claimed := Relation.enlarges_foldl_claim map (steps.filterMap BranchStep.reused?)
      progress.relation
    have enlarges := adds.enlarges.trans claimed
    rw [List.append_nil] at enlarges
    exact ⟨progress.news, rfl, enlarges⟩

theorem conserves_appendBranch (found : state.matcher.get? id = some map) (node : LawNodeId) :
    state.Conserves (state.appendBranch context id node).2 map.tentative := by
  unfold appendBranch
  rw [found]
  dsimp only
  split
  · exact state.conserves_refl map.tentative
  · exact conserves_commit found _ _

theorem satisfied_appendBranch (context : PassContext) (state : PassState) (id : MapId)
    (node : LawNodeId) :
    (state.appendBranch context id node).2.outcome.satisfied = state.outcome.satisfied := by
  unfold appendBranch
  split
  · rfl
  split
  · rfl
  unfold commit
  split
  · rfl
  split
  · rfl
  · rfl

/-- The correspondence under the identifier keeps its name and its flag. -/
theorem stays_appendBranch (found : state.matcher.get? id = some map) (context : PassContext)
    (node : LawNodeId) : ∃ after, (state.appendBranch context id node).2.matcher.get? id =
      some after ∧ after.id = map.id ∧ after.tentative = map.tentative := by
  obtain ⟨-, same | ⟨other, pairs, formulas, -, adopted⟩⟩ :=
    state.appendBranch_cases context id node
  · exact ⟨map, by rw [same, found], rfl, rfl⟩
  rw [adopted, Matcher.get?_update]
  split
  · have stays := map.stays_adopt pairs formulas
    exact ⟨map.adopt pairs formulas, by rw [found]; rfl, stays.id, stays.tentative⟩
  · exact ⟨map, found, rfl, rfl⟩

/-- By induction on the conclusions. -/
theorem conserves_appendAll (nodes : List LawNodeId) : ∀ {state : PassState} {map : Correspondence},
    state.matcher.get? id = some map →
      state.Conserves (appendAll context id nodes state).2 map.tentative ∧
        (appendAll context id nodes state).2.outcome.satisfied = state.outcome.satisfied := by
  induction nodes with
  | nil => exact fun _ => ⟨conserves_refl _ _, rfl⟩
  | cons first rest ih =>
    intro state map found
    obtain ⟨after, held, -, flag⟩ := stays_appendBranch found context first
    obtain ⟨conserves, satisfied⟩ := ih held
    rw [flag] at conserves
    exact ⟨(conserves_appendBranch found first).trans conserves,
      satisfied.trans (state.satisfied_appendBranch context id first)⟩

/-- What an open correspondence creates when it is appended has the flag of the pass. -/
theorem conserves_append (found : state.matcher.get? id = some map) (named : map.id = id)
    (open_ : map.satisfied = false) :
    state.Conserves (state.append context id).2 context.tentative ∧
      (state.append context id).2.outcome.satisfied = state.outcome.satisfied ++ [id] := by
  obtain ⟨marked, relation, appended⟩ := @markSatisfied_open context state id map found named open_
  have noted : (state.markSatisfied context map).outcome.satisfied =
      state.outcome.satisfied ++ [id] := by
    unfold markSatisfied
    rw [open_, ← named]
    rfl
  obtain ⟨conserves, satisfied⟩ :=
    @conserves_appendAll context id (context.catalog.conclusions map.law) _ _ marked
  have begun : state.Conserves (state.markSatisfied context map) context.tentative :=
    conserves_of_same (fun _ => by rw [relation]) appended context.tentative
  rw [append_eq found]
  exact ⟨begun.trans conserves, satisfied.trans noted⟩

/-! ## Acts -/

theorem tallied_adopt (tallied : state.outcome.Tallied) (map : Correspondence)
    (steps : List BranchStep) (progress : BranchProgress) :
    (state.adopt map steps progress).outcome.Tallied := by
  refine ⟨?_, tallied.satisfied, ?_⟩
  · change state.outcome.stats.nodesAppended + progress.created.length =
      (state.outcome.appended ++ progress.created.map Pair.entity).length
    rw [tallied.appended, List.length_append, List.length_map]
  · change state.outcome.stats.commandsInferred + progress.formulas.length =
      (state.outcome.inferred ++ progress.formulas.map _).length
    rw [tallied.inferred, List.length_append, List.length_map]

theorem Act.tallied (act : Act context state events later) (tallied : state.outcome.Tallied) :
    later.outcome.Tallied := by
  cases act with
  | note tag entity => exact ⟨tallied.appended, tallied.satisfied, tallied.inferred⟩
  | spend paid => exact tallied
  | sow planned place unseeded => exact tallied
  | unite foundLeft foundRight united => exact tallied
  | satisfy found =>
    unfold markSatisfied
    split
    · exact tallied
    · refine ⟨tallied.appended, ?_, tallied.inferred⟩
      dsimp only
      rw [tallied.satisfied, List.length_append, List.length_singleton]
  | branch id node settled =>
    unfold appendBranch
    split
    · exact tallied
    split
    · exact tallied
    unfold commit
    split
    · exact tallied
    split
    · exact tallied
    · exact tallied_adopt tallied _ _ _
  | conclude id conclusions => exact tallied

theorem Acts.tallied (acts : Acts context state events later) (tallied : state.outcome.Tallied) :
    later.outcome.Tallied := by
  induction acts with
  | refl => exact tallied
  | step act _ ih => exact ih (act.tallied tallied)

theorem Act.closed (act : Act context state events later) (closed : state.relation.Closed) :
    later.relation.Closed := by
  cases act with
  | note tag entity => exact closed
  | spend paid => exact closed
  | sow planned place unseeded => exact closed
  | unite foundLeft foundRight united => exact closed
  | satisfy found =>
    unfold markSatisfied
    split
    · exact closed
    · exact closed
  | branch id node settled =>
    cases found : state.matcher.get? id with
    | none =>
      unfold appendBranch
      rw [found]
      exact closed
    | some map =>
      obtain ⟨new, -, enlarges⟩ := @conserves_appendBranch context state id map found node
      exact enlarges.closed closed
  | conclude id conclusions => exact closed

theorem Acts.closed (acts : Acts context state events later) (closed : state.relation.Closed) :
    later.relation.Closed := by
  induction acts with
  | refl => exact closed
  | step act _ ih => exact ih (act.closed closed)

/-- Wherever a pass gets to, it makes no difference whether a branch that fails is removed again or
the relation from before is gone back to. -/
theorem Acts.commitUndoing_eq (acts : Acts context state events later)
    (closed : state.relation.Closed) (id : MapId) (steps : List BranchStep) (root : BranchSlot) :
    later.commitUndoing context id steps root = later.commit context id steps root :=
  PassState.commitUndoing_eq (acts.closed closed) id steps root

end PassState

/-! ## Correspondences -/

namespace Matcher

variable {matcher later first second third : Matcher} {made fulfilled more others : List MapId}

/-- A satisfied correspondence is under the identifier. -/
def Satisfies (matcher : Matcher) (id : MapId) : Prop :=
  ∃ map, matcher.get? id = some map ∧ map.satisfied = true

/-- No correspondence has an identifier that was not given out yet. -/
def Issued (matcher : Matcher) : Prop :=
  ∀ id map, matcher.get? id = some map → id.toNat < matcher.nextMap.toNat

/-- The correspondences that were made, each listed once, are beside the others, and some of them
are satisfied in addition to those that were so before. -/
structure Gathers (matcher later : Matcher) (made fulfilled : List MapId) : Prop where
  there : ∀ id, (∃ map, later.get? id = some map) ↔
    (∃ map, matcher.get? id = some map) ∨ id ∈ made
  satisfies : ∀ id, later.Satisfies id ↔ matcher.Satisfies id ∨ id ∈ fulfilled
  apart : ∀ id ∈ made, matcher.get? id = none
  distinct : made.Nodup
  among : fulfilled.Sublist made

theorem gathers_of_get? (same : ∀ id, later.get? id = matcher.get? id) :
    matcher.Gathers later [] [] :=
  ⟨fun id => by simp [same], fun id => by simp [Satisfies, same], by simp, List.nodup_nil, .slnil⟩

theorem Gathers.trans (earlier : first.Gathers second made fulfilled)
    (later : second.Gathers third more others) :
    first.Gathers third (made ++ more) (fulfilled ++ others) where
  there := by
    intro id
    rw [later.there, earlier.there, List.mem_append, or_assoc]
  satisfies := by
    intro id
    rw [later.satisfies, earlier.satisfies, List.mem_append, or_assoc]
  apart := by
    intro id member
    rcases List.mem_append.1 member with old | fresh
    · exact earlier.apart id old
    · refine Option.eq_none_iff_forall_ne_some.2 fun map found => ?_
      obtain ⟨after, held⟩ := (earlier.there id).2 (.inl ⟨map, found⟩)
      exact absurd (held.symm.trans (later.apart id fresh)) (by simp)
  distinct := List.nodup_append'.2 ⟨earlier.distinct, later.distinct, fun id old fresh => by
    obtain ⟨map, found⟩ := (earlier.there id).2 (.inr old)
    exact absurd (found.symm.trans (later.apart id fresh)) (by simp)⟩
  among := earlier.among.append later.among

theorem Gathers.size_eq (gathers : matcher.Gathers later made fulfilled) :
    later.size = matcher.size + made.length :=
  size_add gathers.distinct gathers.apart gathers.there

theorem Gathers.length_satisfied (gathers : matcher.Gathers later made fulfilled) :
    later.satisfied.length = matcher.satisfied.length + fulfilled.length := by
  refine length_filter_values_add (gathers.distinct.sublist gathers.among)
    (fun id listed map held => ?_) gathers.satisfies
  exact absurd (held.symm.trans (gathers.apart id (gathers.among.subset listed))) (by simp)

theorem issued_empty (maxChecks : Nat) : (empty maxChecks).Issued := by
  intro id map found
  have nothing : (empty maxChecks).get? id = none := Std.ExtTreeMap.getElem?_empty
  simp [nothing] at found

theorem Issued.prepare (issued : matcher.Issued) (options : PassOptions) :
    (matcher.prepare options).Issued := by
  unfold Matcher.prepare
  split
  · exact issued_empty matcher.maxChecks
  · exact issued

theorem Issued.free (issued : matcher.Issued) : matcher.get? matcher.nextMap = none :=
  Option.eq_none_iff_forall_ne_some.2 fun map found =>
    absurd (issued matcher.nextMap map found) (Nat.lt_irrefl _)

end Matcher

namespace PassState

variable {context : PassContext} {fresh : Pair → Prop} {state later : PassState}
  {birth : Correspondence} {fills : Bool}

/-- The new correspondence has the identifier that was the next one and free. -/
theorem Makes.gathers (makes : state.Makes later birth fills) (issued : state.matcher.Issued) :
    state.matcher.Gathers later.matcher [state.matcher.nextMap]
      (if fills then [state.matcher.nextMap] else []) := by
  obtain ⟨map, held, -, bears⟩ := makes.found
  have absent := issued.free
  refine ⟨fun id => ?_, fun id => ?_, fun id member => ?_, List.nodup_singleton _, ?_⟩
  · by_cases here : id = state.matcher.nextMap
    · simp [here, held]
    · simp [here, makes.others id here]
  · unfold Matcher.Satisfies
    by_cases here : id = state.matcher.nextMap
    · subst here
      cases fills with
      | true => simp [held, bears.satisfied]
      | false => simp [held, bears.satisfied, absent]
    · rw [makes.others id here]
      cases fills with
      | true => simp [here]
      | false => simp
  · rw [List.mem_singleton.1 member]
    exact absent
  · cases fills with
    | true => exact List.Sublist.refl _
    | false => exact List.nil_sublist _

theorem Makes.issued (makes : state.Makes later birth fills) (issued : state.matcher.Issued)
    (room : state.matcher.nextMap.toNat + 1 < UInt64.size) : later.matcher.Issued := by
  intro id map found
  rw [makes.next, Matcher.toNat_next room]
  by_cases here : id = state.matcher.nextMap
  · rw [here]
    exact Nat.lt_succ_self _
  · rw [makes.others id here] at found
    exact Nat.lt_succ_of_lt (issued id map found)

theorem conserves_settleTaken {spent taken : Matcher} {shared : Std.ExtTreeSet MapId}
    (open_ : birth.satisfied = false)
    (takes : spent.TakesIn taken { birth with id := spent.nextMap, intersections := shared })
    (fills : Bool) :
    state.Conserves (state.settleTaken context taken spent.nextMap fills) context.tentative ∧
      (state.settleTaken context taken spent.nextMap fills).outcome.satisfied =
        state.outcome.satisfied ++ if fills then [spent.nextMap] else [] := by
  have here : taken.get? spent.nextMap =
      some { birth with id := spent.nextMap, intersections := shared } :=
    (takes.found _).trans (if_pos rfl)
  unfold settleTaken
  cases fills with
  | true =>
    obtain ⟨conserves, satisfied⟩ := @conserves_append context { state with matcher := taken }
      spent.nextMap _ here rfl open_
    exact ⟨conserves, satisfied⟩
  | false =>
    refine ⟨conserves_of_same (fun query => ?_) ?_ context.tentative, (List.append_nil _).symm⟩
    · rfl
    · rfl

/-- Correspondences were given identifiers one after the other, not more than there were checks, and
those that were satisfied are listed. -/
structure Counts (start state : PassState) : Prop where
  issued : state.matcher.Issued
  gathers : ∃ made fulfilled, start.matcher.Gathers state.matcher made fulfilled ∧
    state.outcome.satisfied = start.outcome.satisfied ++ fulfilled ∧
    state.matcher.nextMap.toNat = start.matcher.nextMap.toNat + made.length ∧
    start.matcher.checks + made.length ≤ state.matcher.checks

theorem counts_refl (issued : state.matcher.Issued) : state.Counts state :=
  ⟨issued, [], [], Matcher.gathers_of_get? fun _ => rfl, (List.append_nil _).symm, rfl,
    Nat.le_refl _⟩

/-- Every turn spends a check, and gives out an identifier at most. -/
theorem Counts.turn {start : PassState} (counts : start.Counts state)
    (turn : Turn context fresh state later)
    (room : start.matcher.nextMap.toNat + later.matcher.checks < UInt64.size) :
    start.Counts later := by
  obtain ⟨issued, made, fulfilled, gathers, listed, next, fewer⟩ := counts
  cases turn with
  | check paid =>
    obtain ⟨-, rfl⟩ := Matcher.spend?_eq_some paid
    exact ⟨issued, made, fulfilled,
      ⟨gathers.there, gathers.satisfies, gathers.apart, gathers.distinct, gathers.among⟩, listed,
      next, Nat.le_succ_of_le fewer⟩
  | @take spent taken birth fills shared paid begets takes checked =>
    have makes : state.Makes (state.settleTaken context taken spent.nextMap fills) birth fills :=
      makes_settleTaken paid begets.open_ takes checked
    obtain ⟨-, satisfied⟩ := @conserves_settleTaken context state birth spent taken shared
      begets.open_ takes fills
    obtain ⟨-, rfl⟩ := Matcher.spend?_eq_some paid
    rw [makes.checks] at room
    have roomHere : state.matcher.nextMap.toNat + 1 < UInt64.size := by omega
    refine ⟨makes.issued issued roomHere, _, _, gathers.trans (makes.gathers issued), ?_, ?_, ?_⟩
    · rw [satisfied, listed, List.append_assoc]
    · rw [makes.next, Matcher.toNat_next roomHere, next, List.length_append, List.length_singleton,
        Nat.add_assoc]
    · rw [makes.checks, List.length_append, List.length_singleton]
      omega

/-- What was done since the pass started. Correspondences are counted as long as there are
identifiers. -/
structure Since (start state : PassState) (tentative : Bool) : Prop where
  conserves : start.Conserves state tentative
  counts : start.matcher.nextMap.toNat + state.matcher.checks < UInt64.size → start.Counts state

theorem Since.noted {start : PassState} {tentative : Bool} (since : start.Since state tentative)
    (tag : String) (entity : EntityId) : start.Since (state.noted tag entity) tentative := by
  refine ⟨since.conserves, fun room => ?_⟩
  obtain ⟨issued, made, fulfilled, gathers, listed, next, fewer⟩ := since.counts room
  exact ⟨issued, made, fulfilled,
    ⟨gathers.there, gathers.satisfies, gathers.apart, gathers.distinct, gathers.among⟩, listed,
    next, fewer⟩

theorem Since.turn {start : PassState} (since : start.Since state context.tentative)
    (turn : Turn context fresh state later) : start.Since later context.tentative := by
  have spent := turn.advances.checks
  refine ⟨since.conserves.trans ?_, fun room => (since.counts (by omega)).turn turn room⟩
  cases turn with
  | check paid => exact state.conserves_refl context.tentative
  | take paid begets takes checked => exact (conserves_settleTaken begets.open_ takes _).1

theorem Since.visit {start : PassState} (since : start.Since state context.tentative) (tag : String)
    (entity : EntityId) : start.Since (state.visit context tag entity) context.tentative :=
  keeps_visit (motive := fun state => start.Since state context.tentative)
    (fun _ _ before turn => before.turn turn)
    (fun _ tag entity before => before.noted tag entity) tag since entity

theorem since_rounds (issued : state.matcher.Issued) (tag : String)
    (dirty : Std.ExtTreeSet EntityId) (limit : Nat) (seen : Std.ExtTreeSet EntityId) :
    state.Since (rounds context tag dirty limit seen state) context.tentative :=
  keeps_rounds (motive := fun later => state.Since later context.tentative)
    (fun _ entity before => before.visit tag entity) dirty limit seen
    ⟨state.conserves_refl _, fun _ => counts_refl issued⟩

end PassState

namespace Matcher

variable {matcher : Matcher}

/-- What a pass adds, and that its statistics count that. -/
structure Conserves (matcher : Matcher) (relation : Relation) (tentative : Bool)
    (pass : PassState) : Prop where
  /-- The entities from before are spared, and those appended are new, each listed once; they have
  the flag of the pass, and link to entities that are there. -/
  entities : relation.Enlarges pass.relation tentative pass.outcome.appended
  nodesAppended : pass.relation.size = relation.size + pass.outcome.stats.nodesAppended
  mapsCreated : pass.matcher.size = matcher.size + pass.outcome.stats.mapsCreated
  satisfies : ∀ id, pass.matcher.Satisfies id ↔
    matcher.Satisfies id ∨ id ∈ pass.outcome.satisfied
  mapsSatisfied : pass.matcher.satisfied.length =
    matcher.satisfied.length + pass.outcome.stats.mapsSatisfied
  commandsInferred : pass.outcome.inferred.length = pass.outcome.stats.commandsInferred

theorem Issued.since_passed (issued : matcher.Issued) (relation : Relation) (catalog : Catalog)
    (options : PassOptions) (dirty : Std.ExtTreeSet EntityId) :
    (⟨matcher.prepare options, relation, .empty⟩ : PassState).Since
      (matcher.passed relation catalog options dirty) options.tentative :=
  PassState.since_rounds (issued.prepare options) options.tag dirty _ ∅

theorem Issued.evaluate (issued : matcher.Issued) (relation : Relation) (catalog : Catalog)
    (options : PassOptions) (dirty : Std.ExtTreeSet EntityId)
    (room : (matcher.prepare options).nextMap.toNat +
      (matcher.evaluate relation catalog options dirty).matcher.checks < UInt64.size) :
    (matcher.evaluate relation catalog options dirty).matcher.Issued :=
  ((issued.since_passed relation catalog options dirty).counts room).issued

/-! Identifiers are also left alone by what happens between passes. -/

theorem issued_reset (matcher : Matcher) : matcher.reset.Issued := issued_empty matcher.maxChecks

theorem Issued.forgetEntity (issued : matcher.Issued) (entity : EntityId) :
    (matcher.forgetEntity entity).Issued := by
  intro id map found
  have dropped : (matcher.forgetEntity entity).get? id =
      ((matcher.toList.filter fun map => map.nodeOf.contains entity).foldl drop matcher).get?
        id := rfl
  rw [dropped, get?_foldl_drop] at found
  split at found
  · exact absurd found (by simp)
  · rw [nextMap_forgetEntity]
    exact issued id map found

theorem Issued.setTentative (issued : matcher.Issued) {relation after : Relation} {id : MapId}
    {tentative : Bool} {later : Matcher}
    (done : matcher.setTentative relation id tentative = .ok (later, after)) : later.Issued := by
  obtain ⟨rfl, -⟩ := setTentative_eq_ok done
  intro query map found
  rw [get?_update] at found
  split at found
  · obtain ⟨before, held, -⟩ := Option.map_eq_some_iff.1 found
    exact issued query before held
  · exact issued query map found

/-- Whatever the catalog, the relation and the correspondences, a pass conserves what is there, and
counts what it adds, as long as the identifiers of correspondences do not run out. -/
theorem conserves_evaluate (issued : matcher.Issued) (relation : Relation) (catalog : Catalog)
    (options : PassOptions) (dirty : Std.ExtTreeSet EntityId)
    (room : (matcher.prepare options).nextMap.toNat +
      (matcher.evaluate relation catalog options dirty).matcher.checks < UInt64.size) :
    (matcher.prepare options).Conserves relation options.tentative
      (matcher.evaluate relation catalog options dirty) := by
  have since := issued.since_passed relation catalog options dirty
  have tallied := (matcher.acts_passed relation catalog options dirty).tallied Outcome.tallied_empty
  obtain ⟨new, listed, enlarges⟩ := since.conserves
  obtain ⟨-, made, fulfilled, gathers, satisfied, next, -⟩ := since.counts room
  have settled := enlarges.trans (Relation.enlarges_recomputeDeep _ options.tentative)
  rw [List.append_nil] at settled
  obtain rfl : (matcher.passed relation catalog options dirty).outcome.appended = new := listed
  obtain rfl : (matcher.passed relation catalog options dirty).outcome.satisfied = fulfilled :=
    satisfied
  refine ⟨settled, ?_, ?_, gathers.satisfies, ?_, tallied.inferred.symm⟩
  · exact settled.size_eq.trans (congrArg _ tallied.appended.symm)
  · have counted : (matcher.evaluate relation catalog options dirty).outcome.stats.mapsCreated =
        made.length := by
      change (matcher.passed relation catalog options dirty).matcher.nextMap.toNat -
        (matcher.prepare options).nextMap.toNat = made.length
      rw [next]
      exact Nat.add_sub_cancel_left _ _
    rw [counted]
    exact gathers.size_eq
  · exact gathers.length_satisfied.trans (congrArg _ tallied.satisfied.symm)

/-- Two r and two s are added to the p and the two q. -/
theorem conserves_evaluate_inTwoSteps :
    ((empty 1000).prepare .standard).Conserves threeLetters false
        ((empty 1000).evaluate threeLetters inTwoSteps .standard ∅) ∧
      ((empty 1000).evaluate threeLetters inTwoSteps .standard ∅).relation.size = 7 ∧
      ((empty 1000).evaluate threeLetters inTwoSteps .standard ∅).outcome.stats =
        ⟨7, 7, 4, 4, 0⟩ :=
  ⟨conserves_evaluate (issued_empty 1000) threeLetters inTwoSteps .standard ∅ (by decide +kernel),
    by decide +kernel, by decide +kernel⟩

end Matcher

end ConceptLaws
