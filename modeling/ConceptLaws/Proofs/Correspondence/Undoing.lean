import ConceptLaws.Proofs.Correspondence.BranchPlans
import ConceptLaws.Proofs.Correspondence.Rederivation
import ConceptLaws.Proofs.Correspondence.Rollback
import Mathlib.Data.Fintype.Card
import Mathlib.Data.Nat.ModEq

/-! Branches that fail, and branches that cannot.
A step can only fail once it has used up an identifier at most, whatever it is. A plan that was made
for the relation names what is there or what it makes itself, so that it succeeds as long as the
identifiers it takes are not in use. -/

namespace ConceptLaws

namespace Identifier

variable {kind : IdKind}

theorem toNat_iterate_next (id : Identifier kind) (count : Nat) :
    (next^[count] id).toNat = (id.toNat + count) % UInt64.size := by
  induction count with
  | zero => exact (Nat.mod_eq_of_lt id.number.toNat_lt_size).symm
  | succ count ih =>
    rw [Function.iterate_succ_apply']
    calc (next (next^[count] id)).toNat
      _ = ((next^[count] id).toNat + 1) % UInt64.size := UInt64.toNat_add _ _
      _ = (id.toNat + (count + 1)) % UInt64.size := by rw [ih, Nat.mod_add_mod, Nat.add_assoc]

/-- Identifiers come around only after all of them. -/
theorem eq_of_iterate_next_eq {id : Identifier kind} {first second : Nat}
    (within : first < UInt64.size) (withinToo : second < UInt64.size)
    (same : next^[first] id = next^[second] id) : first = second := by
  have numbers : (id.toNat + first) % UInt64.size = (id.toNat + second) % UInt64.size := by
    rw [← toNat_iterate_next, ← toNat_iterate_next, same]
  have rests : first % UInt64.size = second % UInt64.size := Nat.ModEq.add_left_cancel' _ numbers
  rwa [Nat.mod_eq_of_lt within, Nat.mod_eq_of_lt withinToo] at rests

/-- There are not more identifiers than words. -/
theorem length_le_of_nodup {ids : List (Identifier kind)} (distinct : ids.Nodup) :
    ids.length ≤ UInt64.size := by
  have words : (ids.map fun id => id.number.toFin).Nodup := by
    refine distinct.map fun first second same => ?_
    have numbers : first.number = second.number := UInt64.toFin_inj.1 same
    cases first
    cases second
    exact congrArg mk numbers
  calc ids.length
    _ = (ids.map fun id => id.number.toFin).length := (List.length_map _).symm
    _ ≤ Fintype.card (Fin UInt64.size) := words.length_le_card
    _ = UInt64.size := Fintype.card_fin _

end Identifier

/-- Whether a step makes an entity. -/
def BranchStep.creates : BranchStep → Bool
  | create _ _ _ => true
  | _ => false

namespace BranchProgress

variable {base : Relation} {progress : BranchProgress} {map : Correspondence} {catalog : Catalog}
  {steps : List BranchStep}

/-! ## Identifiers that are used up -/

/-- An entity is put under the identifier that was taken for it, which is reserved by then. -/
theorem nextId_put_fresh (relation : Relation) {entity : Entity} (fresh : entity.id = relation.nextId) :
    (relation.freshId.2.put entity).nextId = relation.nextId.next := by
  change relation.nextId.next.maximum entity.id.next = relation.nextId.next
  rw [fresh]
  unfold Identifier.maximum
  split
  · rfl
  · rfl

theorem nextId_create (progress : BranchProgress) (catalog : Catalog) (map : Correspondence)
    (node : LawNode) (head reference : Option BranchSlot) :
    (progress.create catalog map node head reference).2.relation.nextId =
      progress.relation.nextId.next := by
  unfold create
  dsimp only
  split
  · rfl
  · rename_i later inserted
    obtain ⟨-, rfl⟩ := Relation.insert_eq_ok inserted
    exact nextId_put_fresh progress.relation rfl

/-- A step uses up one identifier at most, and none unless it makes an entity. -/
theorem nextId_step (progress : BranchProgress) (catalog : Catalog) (map : Correspondence)
    (step : BranchStep) : ∃ used ≤ [step].countP BranchStep.creates,
      (progress.step catalog map step).2.relation.nextId =
        Identifier.next^[used] progress.relation.nextId := by
  cases step with
  | reuse node entity => exact ⟨0, Nat.zero_le _, rfl⟩
  | create id head reference =>
    unfold BranchProgress.step
    dsimp only
    split
    · exact ⟨0, Nat.zero_le _, rfl⟩
    · exact ⟨1, Nat.le_refl 1, progress.nextId_create catalog map _ head reference⟩
  | formula id slot =>
    unfold BranchProgress.step
    dsimp only
    split
    · exact ⟨0, Nat.zero_le _, rfl⟩
    · exact ⟨0, Nat.zero_le _, rfl⟩

/-- By induction on the steps, also when one of them fails. -/
theorem nextId_run (catalog : Catalog) (map : Correspondence) (steps : List BranchStep) :
    ∀ progress : BranchProgress, ∃ used ≤ steps.countP BranchStep.creates,
      (progress.run catalog map steps).2.relation.nextId =
        Identifier.next^[used] progress.relation.nextId := by
  induction steps with
  | nil => exact fun progress => ⟨0, Nat.zero_le _, rfl⟩
  | cons first rest ih =>
    intro progress
    obtain ⟨here, few, next⟩ := progress.nextId_step catalog map first
    have split : (first :: rest).countP BranchStep.creates =
        [first].countP BranchStep.creates + rest.countP BranchStep.creates :=
      @List.countP_append _ _ [first] rest
    unfold run
    generalize progress.step catalog map first = outcome at *
    obtain ⟨succeeded, middle⟩ := outcome
    cases succeeded with
    | false => exact ⟨here, by omega, next⟩
    | true =>
      obtain ⟨further, fewer, after⟩ := ih middle
      refine ⟨further + here, by omega, ?_⟩
      rw [Function.iterate_add_apply, ← next]
      exact after

/-! ## Plans that are carried out -/

/-- All steps so far were applied: each led to something that is there, and the entities made have
the identifiers that were next, one after the other. -/
structure Stands (base : Relation) (tentative : Bool) (steps : List BranchStep)
    (progress : BranchProgress) : Prop where
  adds : progress.Adds base tentative
  length : progress.made.length = steps.length
  there : ∀ entity ∈ progress.made, progress.relation.contains entity = true
  numbers : ∀ id ∈ progress.news,
    ∃ earlier < steps.countP BranchStep.creates, id = Identifier.next^[earlier] base.nextId
  next : progress.relation.nextId =
    Identifier.next^[steps.countP BranchStep.creates] base.nextId

theorem stands_start (base : Relation) (tentative : Bool) : (start base).Stands base tentative [] where
  adds := adds_start base tentative
  length := rfl
  there := by simp [start]
  numbers := by simp [start, news]
  next := rfl

theorem Stands.resolve? {tentative : Bool} (stands : progress.Stands base tentative steps)
    {slot : BranchSlot} (known : slot.Known base steps) :
    ∃ entity, progress.resolve? slot = some entity ∧ progress.relation.contains entity = true := by
  cases slot with
  | entity id => exact ⟨id, rfl, (stands.adds.enlarges.contains id).2 (.inl known)⟩
  | planned step =>
    obtain ⟨id, head, reference, place⟩ := known
    have within : step < progress.made.length := by
      rw [stands.length]
      exact (List.getElem?_eq_some_iff.1 place).1
    exact ⟨progress.made[step], List.getElem?_eq_getElem within,
      stands.there _ (List.getElem_mem within)⟩

/-- The parents that a step names are there when it is applied. -/
theorem Stands.parents {tentative : Bool} (stands : progress.Stands base tentative steps)
    {slots : Option BranchSlot} (known : ∀ slot ∈ slots, slot.Known base steps) {parent : EntityId}
    (resolves : (slots >>= progress.resolve?) = some parent) :
    progress.relation.contains parent = true := by
  obtain ⟨slot, named, found⟩ := Option.bind_eq_some_iff.1 resolves
  obtain ⟨entity, led, there⟩ := stands.resolve? (known slot named)
  rwa [Option.some.inj (led.symm.trans found)] at there

/-- The next identifier is none that the branch used already. -/
theorem Stands.unused {tentative : Bool} (stands : progress.Stands base tentative steps)
    (few : steps.countP BranchStep.creates < UInt64.size)
    (unused : base.contains (Identifier.next^[steps.countP BranchStep.creates] base.nextId) = false) :
    progress.relation.contains progress.relation.nextId = false := by
  rw [stands.next]
  refine Bool.eq_false_iff.2 fun present => ?_
  rcases (stands.adds.enlarges.contains _).1 present with old | new
  · exact Bool.eq_false_iff.1 unused old
  · obtain ⟨earlier, before, same⟩ := stands.numbers _ new
    have equal := Identifier.eq_of_iterate_next_eq few (before.trans few) same
    omega

/-- An entity whose parents and concept are there is made under an identifier that is not in use. -/
theorem Stands.create (stands : progress.Stands base map.tentative steps) {node : LawNode}
    (known : (catalog.concept? node.concept).isNone = false) {head reference : Option BranchSlot}
    (headed : ∀ slot ∈ head, slot.Known base steps)
    (referred : ∀ slot ∈ reference, slot.Known base steps)
    (few : steps.countP BranchStep.creates < UInt64.size)
    (unused : base.contains (Identifier.next^[steps.countP BranchStep.creates] base.nextId) = false) :
    ∃ later, progress.create catalog map node head reference = (true, later) ∧
      later.Stands base map.tentative (steps ++ [.create node.id head reference]) := by
  let entity := newEntity map progress.relation.nextId node (head >>= progress.resolve?)
    (reference >>= progress.resolve?)
  have grounded : ∀ parent ∈ entity.parents, progress.relation.contains parent = true := by
    intro parent member
    rcases List.mem_append.1 member with inHead | inReference
    · exact stands.parents headed (Option.mem_toList.1 inHead)
    · exact stands.parents referred (Option.mem_toList.1 inReference)
  have inserted : progress.relation.freshId.2.insert entity catalog =
      .ok (progress.relation.freshId.2.put entity) :=
    Relation.insert_eq_put (stands.unused few unused) known grounded
  let later : BranchProgress := { progress.done progress.relation.nextId with
    relation := progress.relation.freshId.2.put entity
    created := progress.created ++ [⟨progress.relation.nextId, node.id⟩] }
  have made : progress.create catalog map node head reference = (true, later) := by
    have here : progress.relation.freshId.2.insert (newEntity map progress.relation.freshId.1 node
        (head >>= progress.resolve?) (reference >>= progress.resolve?)) catalog =
          .ok (progress.relation.freshId.2.put entity) := inserted
    unfold BranchProgress.create
    dsimp only
    rw [here]
    rfl
  have count : (steps ++ [BranchStep.create node.id head reference]).countP BranchStep.creates =
      steps.countP BranchStep.creates + 1 := List.countP_append
  have adds := stands.adds.create catalog node head reference
  rw [made] at adds
  refine ⟨later, made, adds, ?_, fun other member => ?_, fun id member => ?_, ?_⟩
  · change (progress.made ++ [_]).length = _
    simp [stands.length]
  · rcases List.mem_append.1 member with old | new
    · exact Relation.contains_put.2 (.inr (stands.there other old))
    · exact Relation.contains_put.2 (.inl (List.mem_singleton.1 new))
  · rw [count]
    have listed : id ∈ progress.news ++ [progress.relation.nextId] := by
      unfold news at member ⊢
      simpa [later] using member
    rcases List.mem_append.1 listed with old | new
    · obtain ⟨earlier, before, same⟩ := stands.numbers id old
      exact ⟨earlier, before.trans (Nat.lt_succ_self _), same⟩
    · exact ⟨_, Nat.lt_succ_self _, (List.mem_singleton.1 new).trans stands.next⟩
  · rw [count, Function.iterate_succ_apply', ← stands.next]
    exact nextId_put_fresh progress.relation rfl

/-- A step that fits is applied. -/
theorem Stands.step (stands : progress.Stands base map.tentative steps) (valid : catalog.Valid)
    {step : BranchStep} (fits : step.Fits base catalog map.law steps)
    (few : (steps ++ [step]).countP BranchStep.creates ≤ UInt64.size)
    (unused : ∀ earlier < (steps ++ [step]).countP BranchStep.creates,
      base.contains (Identifier.next^[earlier] base.nextId) = false) :
    ∃ later, progress.step catalog map step = (true, later) ∧
      later.Stands base map.tentative (steps ++ [step]) := by
  have idle {entity : EntityId} {later : BranchProgress} (plain : step.creates = false)
      (there : progress.relation.contains entity = true)
      (relation : later.relation = progress.relation) (created : later.created = progress.created)
      (made : later.made = progress.made ++ [entity]) :
      later.Stands base map.tentative (steps ++ [step]) := by
    have count : (steps ++ [step]).countP BranchStep.creates =
        steps.countP BranchStep.creates := by simp [plain]
    obtain ⟨adds, length, listed, numbers, next⟩ := stands
    refine ⟨⟨?_, ?_⟩, by simp [made, length], fun other member => ?_, ?_, ?_⟩
    · unfold news
      rw [relation, created]
      exact adds.enlarges
    · unfold news
      rw [relation, created]
      exact adds.same
    · rw [made] at member
      rw [relation]
      rcases List.mem_append.1 member with old | new
      · exact listed other old
      · rwa [List.mem_singleton.1 new]
    · unfold news
      rw [created, count]
      exact numbers
    · rw [relation, count, next]
  cases fits with
  | @reuse id entity node named present =>
    have there := (stands.adds.enlarges.contains entity).2 (.inl present)
    exact ⟨_, rfl, idle rfl there rfl rfl rfl⟩
  | @create id head reference node named missing headed referred needed =>
    obtain ⟨owner, listed, found⟩ := Catalog.lawNode?_eq_some named
    obtain ⟨-, rfl⟩ := Law.node?_eq_some found
    have count : (steps ++ [BranchStep.create node.id head reference]).countP BranchStep.creates =
        steps.countP BranchStep.creates + 1 := List.countP_append
    rw [count] at few unused
    obtain ⟨later, made, next⟩ := stands.create (valid.checkNode named).1 headed referred
      (by omega) (unused _ (Nat.lt_succ_self _))
    refine ⟨later, ?_, next⟩
    unfold BranchProgress.step
    dsimp only
    rw [named]
    exact made
  | @formula id owner node named data owned =>
    obtain ⟨entity, resolved, there⟩ := stands.resolve? owned
    obtain ⟨source, written⟩ := Option.isSome_iff_exists.1 data
    have read : (catalog.lawNode? map.law id >>= LawNode.formula) = some source := by
      rw [named]
      exact written
    refine ⟨{ progress.done entity with
      formulas := progress.formulas ++ [(id, ⟨entity, source⟩)] }, ?_, idle rfl there rfl rfl rfl⟩
    unfold BranchProgress.step
    dsimp only
    rw [resolved, read]

/-- By induction on the steps that are left: none of them fails. -/
theorem Stands.run (valid : catalog.Valid) {rest : List BranchStep} :
    ∀ {steps : List BranchStep} {progress : BranchProgress},
      progress.Stands base map.tentative steps →
      (∀ (index : Nat) (step : BranchStep), (steps ++ rest)[index]? = some step →
        step.Fits base catalog map.law ((steps ++ rest).take index)) →
      (steps ++ rest).countP BranchStep.creates ≤ UInt64.size →
      (∀ earlier < (steps ++ rest).countP BranchStep.creates,
        base.contains (Identifier.next^[earlier] base.nextId) = false) →
      ∃ later, progress.run catalog map rest = (true, later) ∧
        later.Stands base map.tentative (steps ++ rest) := by
  induction rest with
  | nil =>
    intro steps progress stands _ _ _
    exact ⟨progress, rfl, (List.append_nil steps).symm ▸ stands⟩
  | cons first rest ih =>
    intro steps progress stands fits few unused
    have whole : steps ++ first :: rest = steps ++ [first] ++ rest := by simp
    have counted : (steps ++ [first] ++ rest).countP BranchStep.creates =
        (steps ++ [first]).countP BranchStep.creates + rest.countP BranchStep.creates :=
      List.countP_append
    have fitsHere := fits steps.length first (by simp)
    rw [List.take_left] at fitsHere
    rw [whole] at fits few unused ⊢
    obtain ⟨middle, stepped, standsNow⟩ := stands.step valid fitsHere (by omega)
      fun earlier before => unused earlier (by omega)
    obtain ⟨later, ran, done⟩ := ih standsNow fits few unused
    refine ⟨later, ?_, done⟩
    unfold BranchProgress.run
    rw [stepped]
    exact ran

end BranchProgress

/-- The plan of a branch has at most as many steps as there are identifiers of nodes. -/
theorem BranchPlan.Laid.countP_creates_le {plan : BranchPlan} {map : Correspondence}
    {relation : Relation} {catalog : Catalog} (laid : plan.Laid map relation catalog) :
    plan.steps.countP BranchStep.creates ≤ UInt64.size := by
  calc plan.steps.countP BranchStep.creates
    _ ≤ plan.steps.length := List.countP_le_length
    _ = (plan.steps.map BranchStep.node).length := (List.length_map _).symm
    _ ≤ UInt64.size := Identifier.length_le_of_nodup laid.distinct

namespace PassState

variable {context : PassContext} {state : PassState} {id : MapId} {map : Correspondence}

/-- What a failed branch leaves behind are the identifiers that it used up. -/
theorem commitUndoing_of_failed (closed : state.relation.Closed)
    (held : state.matcher.get? id = some map) {steps : List BranchStep}
    (failed : ((BranchProgress.start state.relation).run context.catalog map steps).1 = false)
    (root : BranchSlot) :
    ∃ used ≤ steps.countP BranchStep.creates,
      state.commitUndoing context id steps root = (none, { state with
        relation := { state.relation with
          nextId := Identifier.next^[used] state.relation.nextId } }) := by
  obtain ⟨used, few, next⟩ := BranchProgress.nextId_run context.catalog map steps
    (BranchProgress.start state.relation)
  refine ⟨used, few, ?_⟩
  rw [commitUndoing_eq closed]
  unfold commit
  rw [held]
  dsimp only
  generalize (BranchProgress.start state.relation).run context.catalog map steps = outcome at *
  obtain ⟨succeeded, progress⟩ := outcome
  obtain rfl : succeeded = false := failed
  dsimp only at next ⊢
  rw [next]
  rfl

/-- A plan made for the relation leads to an entity. -/
theorem exists_commitUndoing (valid : context.catalog.Valid) (named : state.relation.Named)
    (held : state.matcher.get? id = some map) {node : LawNodeId} {root : BranchSlot}
    {plan : BranchPlan}
    (planned : map.planBranch? state.relation context.catalog node = some (root, plan))
    (unused : ∀ earlier < plan.steps.countP BranchStep.creates,
      state.relation.contains (Identifier.next^[earlier] state.relation.nextId) = false) :
    ∃ entity, (state.commitUndoing context id plan.steps root).1 = some entity := by
  obtain ⟨lays, known⟩ := Correspondence.lays_planNode valid named _
    (Correspondence.laid_empty map state.relation context.catalog) planned
  have start := BranchProgress.stands_start state.relation map.tentative
  obtain ⟨later, ran, stands⟩ : ∃ later, (BranchProgress.start state.relation).run context.catalog map
      plan.steps = (true, later) ∧ later.Stands state.relation map.tentative plan.steps :=
    start.run valid lays.laid.steps lays.laid.countP_creates_le unused
  obtain ⟨entity, resolved, -⟩ := stands.resolve? known
  refine ⟨entity, ?_⟩
  unfold commitUndoing
  rw [held]
  dsimp only
  rw [ran]
  exact resolved

/-- Whatever the steps of a branch are, when one fails the relation, the correspondences and the
outcome are as before, and only identifiers are gone, one at most for each entity to be made. A
branch that was planned for the relation does not fail as long as the identifiers that are next are
not in use. -/
theorem commitUndoing_restores_or_succeeds (closed : state.relation.Closed)
    (held : state.matcher.get? id = some map) :
    (∀ steps root, state.commitUndoing context id steps root = state.commit context id steps root) ∧
    (∀ steps root,
      ((BranchProgress.start state.relation).run context.catalog map steps).1 = false →
        ∃ used ≤ steps.countP BranchStep.creates,
          state.commitUndoing context id steps root = (none, { state with
            relation := { state.relation with
              nextId := Identifier.next^[used] state.relation.nextId } })) ∧
    (context.catalog.Valid → state.relation.Named → ∀ node root plan,
      map.planBranch? state.relation context.catalog node = some (root, plan) →
        (∀ earlier < plan.steps.countP BranchStep.creates,
          state.relation.contains (Identifier.next^[earlier] state.relation.nextId) = false) →
        ∃ entity, (state.commitUndoing context id plan.steps root).1 = some entity) := by
  refine ⟨fun steps root => commitUndoing_eq closed id steps root, fun steps root failed => ?_,
    fun valid named node root plan planned unused => ?_⟩
  · exact commitUndoing_of_failed closed held failed root
  · exact exists_commitUndoing valid named held planned unused

/-- A p and a q stand for the predicates of the first law. -/
def letterMap : Correspondence :=
  ((Correspondence.empty ⟨100⟩).record ⟨⟨1⟩, ⟨1⟩⟩).record ⟨⟨2⟩, ⟨2⟩⟩

def letterState : PassState :=
  ⟨{ Matcher.empty 10 with maps := (∅ : Std.ExtTreeMap MapId Correspondence).insert ⟨0⟩ letterMap },
    threeLetters, .empty⟩

/-- The second step links to what the first one makes, and the law has no node for the third. -/
def strayBranch : List BranchStep :=
  [.create ⟨3⟩ none none, .create ⟨3⟩ (some (.planned 0)) (some (.planned 7)), .create ⟨9⟩ none none]

/-- A branch with a node too many is undone, and the branch of the conclusion is carried out. -/
theorem commitUndoing_letters :
    (∃ used ≤ strayBranch.countP BranchStep.creates,
      letterState.commitUndoing ⟨inTwoSteps, false⟩ ⟨0⟩ strayBranch (.planned 1) =
        (none, { letterState with relation := { letterState.relation with
          nextId := Identifier.next^[used] letterState.relation.nextId } })) ∧
    ∃ root plan, letterMap.planBranch? letterState.relation inTwoSteps ⟨3⟩ = some (root, plan) ∧
      plan.steps = [.create ⟨3⟩ (some (.entity ⟨1⟩)) (some (.entity ⟨2⟩))] ∧
      ∃ entity, (letterState.commitUndoing ⟨inTwoSteps, false⟩ ⟨0⟩ plan.steps root).1 =
        some entity := by
  have held : letterState.matcher.get? ⟨0⟩ = some letterMap := Std.ExtTreeMap.getElem?_insert_self
  obtain ⟨-, undone, carriedOut⟩ := @commitUndoing_restores_or_succeeds ⟨inTwoSteps, false⟩
    letterState ⟨0⟩ letterMap firm_threeLetters.forest.closed held
  obtain ⟨⟨root, plan⟩, planned⟩ := Option.isSome_iff_exists.1
    (show (letterMap.planBranch? letterState.relation inTwoSteps ⟨3⟩).isSome = true by decide +kernel)
  have steps : plan.steps = [.create ⟨3⟩ (some (.entity ⟨1⟩)) (some (.entity ⟨2⟩))] := by
    have shown : (letterMap.planBranch? letterState.relation inTwoSteps ⟨3⟩).map
        (fun branch => branch.2.steps) =
          some [.create ⟨3⟩ (some (.entity ⟨1⟩)) (some (.entity ⟨2⟩))] := by decide +kernel
    rw [planned] at shown
    exact Option.some.inj shown
  refine ⟨undone strayBranch (.planned 1) (by decide +kernel), root, plan, planned, steps,
    carriedOut valid_inTwoSteps firm_threeLetters.forest.named ⟨3⟩ root plan planned ?_⟩
  rw [steps]
  decide +kernel

end PassState

end ConceptLaws
