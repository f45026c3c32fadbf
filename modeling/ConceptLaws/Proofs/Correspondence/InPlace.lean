import ConceptLaws.Proofs.Correspondence.Orientation
import ConceptLaws.Proofs.Correspondence.PlanRuns

/-! Plans in place.
A plan is one list that is written to while parents and orientations are tried. A pair is pushed
before its parents are planned, an orientation that fails is undone by cutting the plan back to where
it was, and in the end the pair is popped if no orientation is left. So a pair that cannot be planned
leaves no trace, however deep its parents failed, and what a pair that can be planned adds goes
together with the correspondence and with what was planned before. -/

namespace ConceptLaws.Correspondence

/-- Plans the parent on a side, if the node has one there. -/
def planSideInPlace (planPair : Pair → StateM PairPlan Bool) (entity : Entity) (node : LawNode)
    (swapped : Bool) (side : Side) : StateM PairPlan Bool :=
  match node.parent side with
  | none => return true
  | some parentNode =>
    match entity.parent (side.oriented swapped) with
    | none => return false
    | some parent => planPair ⟨parent, parentNode⟩

/-- Plans side by side until one fails. What the sides before it planned stays in the plan. -/
def planSidesInPlace (planSide : Side → StateM PairPlan Bool) : List Side → StateM PairPlan Bool
  | [] => return true
  | side :: rest => do
    if ← planSide side then planSidesInPlace planSide rest else return false

/-- Tries orientations until one is possible, and cuts the plan back after each that is not. -/
def planTurnedInPlace (planParents : Bool → StateM PairPlan Bool) :
    List Bool → StateM PairPlan Bool
  | [] => return false
  | swapped :: rest => do
    let mark := (← get).length
    if ← planParents swapped then return true
    modify (List.take mark)
    planTurnedInPlace planParents rest

/-- Pushes a pair, and pops it again if no orientation is possible. -/
def pushInPlace (pair : Pair) (planTurned : StateM PairPlan Bool) : StateM PairPlan Bool := do
  modify (· ++ [pair])
  if ← planTurned then return true
  modify List.dropLast
  return false

/-- Plans a pair and all it needs, and tells whether that is possible. -/
def planPairInPlace (map : Correspondence) (relation : Relation) (catalog : Catalog) :
    Nat → Pair → StateM PairPlan Bool
  | 0, _ => return false
  | depth + 1, pair => do
    match map.admits (← get) pair with
    | .conflict => return false
    | .present => return true
    | .free =>
      match relation.get? pair.entity, catalog.lawNode? map.law pair.node with
      | some entity, some node =>
        if node.accepts catalog entity then
          pushInPlace pair (planTurnedInPlace (fun swapped => planSidesInPlace
            (planSideInPlace (planPairInPlace map relation catalog depth) entity node swapped)
            Side.both) (catalog.orientations entity.concept))
        else return false
      | _, _ => return false

/-- The answer when a pair is planned in place, and what has become of the plan. -/
def tryPlan (map : Correspondence) (relation : Relation) (catalog : Catalog) (depth : Nat)
    (plan : PairPlan) (pair : Pair) : Bool × PairPlan :=
  (map.planPairInPlace relation catalog depth pair).run plan

/-! ## Nothing is left of what fails -/

/-- What a call leaves behind that extends a plan, or else leaves it as it was. -/
def keepingPlan (plan : PairPlan) : Option PairPlan → Bool × PairPlan
  | some later => (true, later)
  | none => (false, plan)

/-- A call that fails leaves what it began with, and perhaps more. -/
inductive Leaves (plan : PairPlan) : Option PairPlan → Bool × PairPlan → Prop
  | planned (later : PairPlan) : Leaves plan (some later) (true, later)
  | failed (left : PairPlan) (more : plan <+: left) : Leaves plan none (false, left)

variable {map : Correspondence} {relation : Relation} {catalog : Catalog}

theorem Leaves.before {plan middle : PairPlan} {result : Option PairPlan}
    {outcome : Bool × PairPlan} (leaves : Leaves middle result outcome) (kept : plan <+: middle) :
    Leaves plan result outcome := by
  cases leaves with
  | planned later => exact .planned later
  | failed left more => exact .failed left (kept.trans more)

theorem leaves_planSidesInPlace {planSide : PairPlan → Side → Option PairPlan}
    {call : Side → StateM PairPlan Bool}
    (runs : ∀ side plan, (call side).run plan = keepingPlan plan (planSide plan side))
    (grows : ∀ side plan later, planSide plan side = some later → plan <+: later)
    (sides : List Side) (plan : PairPlan) :
    Leaves plan (sides.foldlM planSide plan) ((planSidesInPlace call sides).run plan) := by
  induction sides generalizing plan with
  | nil => exact .planned plan
  | cons side rest ih =>
    have step : (planSidesInPlace call (side :: rest)).run plan =
        match (call side).run plan with
        | (true, middle) => (planSidesInPlace call rest).run middle
        | (false, left) => (false, left) := by
      simp only [planSidesInPlace, StateT.run_bind]
      cases (call side).run plan with
      | mk answer middle => cases answer <;> rfl
    rw [step, runs, List.foldlM_cons]
    cases planned : planSide plan side with
    | none => exact .failed plan (List.prefix_refl plan)
    | some middle => exact (ih middle).before (grows side plan middle planned)

/-- Cutting the plan back undoes an orientation that failed. -/
theorem run_planTurnedInPlace {planParents : Bool → Option PairPlan}
    {call : Bool → StateM PairPlan Bool} {plan : PairPlan}
    (leaves : ∀ swapped, Leaves plan (planParents swapped) ((call swapped).run plan))
    (orientations : List Bool) : (planTurnedInPlace call orientations).run plan =
      keepingPlan plan (orientations.findSome? planParents) := by
  induction orientations with
  | nil => rfl
  | cons swapped rest ih =>
    have step : (planTurnedInPlace call (swapped :: rest)).run plan =
        match (call swapped).run plan with
        | (true, later) => (true, later)
        | (false, left) => (planTurnedInPlace call rest).run (left.take plan.length) := by
      simp only [planTurnedInPlace, StateT.run_bind, StateT.run_get, pure_bind]
      cases (call swapped).run plan with
      | mk answer left => cases answer <;> rfl
    rw [step, List.findSome?_cons]
    generalize outcome : (call swapped).run plan = reached
    have tried := leaves swapped
    rw [outcome] at tried
    cases planned : planParents swapped with
    | some later =>
      rw [planned] at tried
      cases tried with
      | planned => rfl
    | none =>
      rw [planned] at tried
      cases tried with
      | failed left more =>
        -- whatever was added, the plan is found again at the mark
        show (planTurnedInPlace call rest).run (left.take plan.length) = _
        rw [← List.prefix_iff_eq_take.1 more]
        exact ih

theorem run_pushInPlace {call : StateM PairPlan Bool} {pair : Pair} {plan : PairPlan}
    {result : Option PairPlan}
    (runs : call.run (plan ++ [pair]) = keepingPlan (plan ++ [pair]) result) :
    (pushInPlace pair call).run plan = keepingPlan plan result := by
  have step : (pushInPlace pair call).run plan =
      match call.run (plan ++ [pair]) with
      | (true, later) => (true, later)
      | (false, left) => (false, left.dropLast) := by
    simp only [pushInPlace, StateT.run_bind, StateT.run_modify, pure_bind]
    cases call.run (plan ++ [pair]) with
    | mk answer left => cases answer <;> rfl
  rw [step, runs]
  cases result with
  | some later => rfl
  | none =>
    show (false, (plan ++ [pair]).dropLast) = (false, plan)
    rw [List.dropLast_concat]

theorem run_planSideInPlace {planPair : PairPlan → Pair → Option PairPlan}
    {call : Pair → StateM PairPlan Bool}
    (runs : ∀ pair plan, (call pair).run plan = keepingPlan plan (planPair plan pair))
    (entity : Entity) (node : LawNode) (swapped : Bool) (side : Side) (plan : PairPlan) :
    (planSideInPlace call entity node swapped side).run plan =
      keepingPlan plan (planSide planPair entity node swapped plan side) := by
  unfold planSideInPlace planSide
  cases node.parent side with
  | none => rfl
  | some parentNode =>
    cases entity.parent (side.oriented swapped) with
    | none => rfl
    | some parent => exact runs ⟨parent, parentNode⟩ plan

/-- Planning in place gives the plan, or leaves everything as it was. -/
theorem run_planPairInPlace (depth : Nat) : ∀ (pair : Pair) (plan : PairPlan),
    (map.planPairInPlace relation catalog depth pair).run plan =
      keepingPlan plan (map.planPair relation catalog depth plan pair) := by
  induction depth with
  | zero => exact fun _ _ => rfl
  | succ depth ih =>
    intro pair plan
    unfold planPairInPlace planPair
    rw [StateT.run_bind, StateT.run_get, pure_bind]
    dsimp only
    cases map.admits plan pair with
    | conflict => rfl
    | present => rfl
    | free =>
      dsimp only
      cases relation.get? pair.entity with
      | none => rfl
      | some entity =>
        cases catalog.lawNode? map.law pair.node with
        | none => rfl
        | some node =>
          dsimp only
          by_cases accepted : node.accepts catalog entity = true
          · rw [if_pos accepted, if_pos accepted]
            apply run_pushInPlace
            apply run_planTurnedInPlace
            intro swapped
            apply leaves_planSidesInPlace
            · exact run_planSideInPlace ih entity node swapped
            · intro side plan later planned
              rcases planSide_cases planned with ⟨-, same⟩ | ⟨_, _, -, -, step⟩
              · exact same ▸ List.prefix_refl plan
              · exact isPrefix_planPair depth step
          · rw [if_neg accepted, if_neg accepted]
            rfl

/-! ## As deep as it takes -/

/-- Following more links than there are changes nothing. By induction on the links that are left:
each parent has one less. -/
theorem planPair_of_suffices (depth : Nat) : ∀ {more : Nat} {pair : Pair},
    catalog.Suffices map.law depth pair.node → depth ≤ more → ∀ plan,
      map.planPair relation catalog more plan pair =
        map.planPair relation catalog depth plan pair := by
  induction depth with
  | zero => exact fun enough => absurd enough.positive (Nat.lt_irrefl 0)
  | succ depth ih =>
    intro more pair enough deeper plan
    obtain ⟨more, rfl⟩ : ∃ before, more = before + 1 := ⟨more - 1, by omega⟩
    unfold planPair
    cases map.admits plan pair with
    | conflict => rfl
    | present => rfl
    | free =>
      dsimp only
      cases relation.get? pair.entity with
      | none => rfl
      | some entity =>
        cases named : catalog.lawNode? map.law pair.node with
        | none => rfl
        | some node =>
          have above : planSide (map.planPair relation catalog more) entity node =
              planSide (map.planPair relation catalog depth) entity node := by
            funext swapped plan side
            unfold planSide
            cases leads : node.parent side with
            | none => rfl
            | some parentNode =>
              cases entity.parent (side.oriented swapped) with
              | none => rfl
              | some parent =>
                have fewer := enough.above named (LawNode.mem_parents.2 ⟨side, leads⟩)
                exact ih fewer (Nat.le_of_succ_le_succ deeper) plan
          simp only [planParents_eq, above]

/-! ## What is added -/

/-- The correspondence is injective, and with the planned pairs it still is. -/
structure OneToOne (map : Correspondence) (plan : PairPlan) : Prop where
  recorded : map.isInjective = true
  together : ∀ first ∈ map.pairs ++ plan, ∀ second ∈ map.pairs ++ plan,
    (first.entity = second.entity ↔ first.node = second.node)

instance (map : Correspondence) (plan : PairPlan) : Decidable (map.OneToOne plan) :=
  decidable_of_iff (_ ∧ _) ⟨fun ⟨recorded, together⟩ => ⟨recorded, together⟩,
    fun ⟨recorded, together⟩ => ⟨recorded, together⟩⟩

/-- In an injective correspondence the two directions agree. -/
theorem entityOf_of_mem_pairs (injective : map.isInjective = true) {pair : Pair}
    (member : pair ∈ map.pairs) : map.entityOf[pair.node]? = some pair.entity := by
  unfold isInjective at injective
  rw [Bool.and_eq_true, List.all_eq_true] at injective
  have listed := Std.ExtTreeMap.mem_toList_iff_getElem?_eq_some.2 (mem_pairs.1 member)
  exact eq_of_beq (injective.2 _ listed)

/-- A free pair shares nothing with a pair that is recorded or planned. -/
theorem apart_of_free {plan : PairPlan} {pair : Pair} (injective : map.isInjective = true)
    (free : map.admits plan pair = .free) :
    ∀ other ∈ map.pairs ++ plan, other.entity ≠ pair.entity ∧ other.node ≠ pair.node := by
  obtain ⟨freeMap, freePlan⟩ := admits_eq_free free
  obtain ⟨freeEntity, freeNode⟩ := admission_eq_free freeMap
  intro other member
  rcases List.mem_append.1 member with recorded | planned
  · constructor
    · intro same
      have held := mem_pairs.1 recorded
      rw [same, freeEntity] at held
      cases held
    · intro same
      have held := entityOf_of_mem_pairs injective recorded
      rw [same, freeNode] at held
      cases held
  · exact PairPlan.admission_eq_free freePlan other planned

theorem OneToOne.push {plan : PairPlan} {pair : Pair} (oneToOne : map.OneToOne plan)
    (free : map.admits plan pair = .free) : map.OneToOne (plan ++ [pair]) := by
  have apart := apart_of_free oneToOne.recorded free
  refine ⟨oneToOne.recorded, fun first left second right => ?_⟩
  rw [← List.append_assoc, List.mem_append, List.mem_singleton] at left right
  rcases left with left | rfl
  · rcases right with right | rfl
    · exact oneToOne.together first left second right
    · exact iff_of_false (apart first left).1 (apart first left).2
  · rcases right with right | rfl
    · exact iff_of_false (apart second right).1.symm (apart second right).2.symm
    · exact iff_of_true rfl rfl

/-- What was added was not there before. -/
def Adds (plan later : PairPlan) : Prop :=
  ∃ added, later = plan ++ added ∧ ∀ pair ∈ added, pair ∉ plan

theorem adds_refl (plan : PairPlan) : Adds plan plan :=
  ⟨[], (List.append_nil plan).symm, fun _ member => absurd member List.not_mem_nil⟩

theorem Adds.push {plan later : PairPlan} {pair : Pair} (adds : Adds plan later)
    (free : map.admits later pair = .free) : Adds plan (later ++ [pair]) := by
  obtain ⟨added, rfl, new⟩ := adds
  refine ⟨added ++ [pair], List.append_assoc .., fun other member => ?_⟩
  rcases List.mem_append.1 member with before | last
  · exact new other before
  · rw [List.mem_singleton.1 last]
    intro known
    exact (PairPlan.admission_eq_free (admits_eq_free free).2 pair
      (List.mem_append_left added known)).1 rfl

/-! ## All or nothing -/

/-- What planning a pair leaves behind: the plan as it was, or one with the pair and all that backs
it. -/
structure Transacts (map : Correspondence) (relation : Relation) (catalog : Catalog)
    (plan : PairPlan) (pair : Pair) (outcome : Bool × PairPlan) : Prop where
  undone : outcome.1 = false → outcome.2 = plan
  kept : outcome.1 = true → plan <+: outcome.2
  oneToOne : outcome.1 = true → map.OneToOne outcome.2
  settled : outcome.1 = true → map.Has pair ∨ pair ∈ outcome.2
  backed : outcome.1 = true → ∀ added ∈ outcome.2.drop plan.length,
    map.Backed relation catalog outcome.2 added

theorem transacts_keepingPlan {plan : PairPlan} (oneToOne : map.OneToOne plan) (depth : Nat)
    (pair : Pair) : map.Transacts relation catalog plan pair
      (keepingPlan plan (map.planPair relation catalog depth plan pair)) := by
  cases planned : map.planPair relation catalog depth plan pair with
  | none => exact ⟨fun _ => rfl, nofun, nofun, nofun, nofun⟩
  | some later =>
    obtain ⟨widens, settled⟩ := widens_planPair depth planned
    have together : map.OneToOne later :=
      planPair_keeps map.OneToOne (fun _ _ before free => before.push free) depth oneToOne planned
    have adds : Adds plan later :=
      planPair_keeps (Adds plan) (fun _ _ before free => before.push free) depth (adds_refl plan)
        planned
    refine ⟨nofun, fun _ => widens.kept, fun _ => together, fun _ => settled.symm,
      fun _ pair listed => ?_⟩
    -- `widens` leaves open whether a pair that was added is one of the old ones; none is
    obtain ⟨added, rfl, new⟩ := adds
    have fresh : pair ∉ plan := by
      apply new
      simpa [keepingPlan] using listed
    exact (widens.backed pair (List.mem_of_mem_drop listed)).resolve_left fresh

/-- In place a pair is planned with all that backs it, or nothing changes, whatever was planned
before. The plan is the one that is computed otherwise, however many links may be followed, as soon as
there are as many as the law has nodes. -/
theorem tryPlan_all_or_nothing (valid : catalog.Valid) (relation : Relation) {plan : PairPlan}
    (oneToOne : map.OneToOne plan) (pair : Pair) {depth : Nat}
    (deep : map.planDepth catalog ≤ depth) :
    map.tryPlan relation catalog depth plan pair =
        keepingPlan plan (map.planPair relation catalog (map.planDepth catalog) plan pair) ∧
      map.Transacts relation catalog plan pair (map.tryPlan relation catalog depth plan pair) := by
  have enough := valid.suffices map pair.node
  unfold tryPlan
  rw [run_planPairInPlace, planPair_of_suffices _ enough deep]
  exact ⟨rfl, transacts_keepingPlan oneToOne _ pair⟩

/-- A q between a p and an r, and two p. -/
def mirroring : Catalog := .unchecked ⟨symmetricLetters, [
  letterLaw 100 [⟨1⟩, ⟨2⟩, ⟨3⟩, ⟨4⟩, ⟨5⟩] [letterNode 1 1 none none, letterNode 2 3 none none,
    letterNode 3 2 (some ⟨1⟩) (some ⟨2⟩), letterNode 4 1 none none, letterNode 5 1 none none]]⟩

/-- A q from something that is p, q and r to a p, two p, and a q to the first of these. -/
def mirrored : Relation :=
  letterRelation [letterRecord 1 7 none, letterRecord 2 1 none,
    { letterRecord 3 2 (some ⟨1⟩) with reference := some ⟨2⟩ }, letterRecord 4 1 none,
    letterRecord 5 1 none, { letterRecord 6 2 (some ⟨1⟩) with reference := some ⟨4⟩ }]

/-- The first of the two p is recorded. -/
def mirroredMap : Correspondence := (empty ⟨100⟩).record ⟨⟨4⟩, ⟨4⟩⟩

/-- What is p, q and r is tried as the p of the law, and planned as the r. -/
theorem tryPlan_all_or_nothing_mirrored :
    mirroredMap.tryPlan mirrored mirroring 9 [⟨⟨5⟩, ⟨5⟩⟩] ⟨⟨3⟩, ⟨3⟩⟩ =
        (true, [⟨⟨5⟩, ⟨5⟩⟩, ⟨⟨3⟩, ⟨3⟩⟩, ⟨⟨2⟩, ⟨1⟩⟩, ⟨⟨1⟩, ⟨2⟩⟩]) ∧
      mirroredMap.Transacts mirrored mirroring [⟨⟨5⟩, ⟨5⟩⟩] ⟨⟨3⟩, ⟨3⟩⟩
        (mirroredMap.tryPlan mirrored mirroring 9 [⟨⟨5⟩, ⟨5⟩⟩] ⟨⟨3⟩, ⟨3⟩⟩) := by
  refine ⟨by decide +kernel, ?_⟩
  exact (tryPlan_all_or_nothing (Catalog.valid_unchecked rfl rfl rfl) mirrored
    (by decide +kernel) ⟨⟨3⟩, ⟨3⟩⟩ (by decide +kernel)).2

/-- With a p that is recorded elsewhere, what the first orientation planned is gone as well. -/
example : mirroredMap.tryPlan mirrored mirroring 9 [⟨⟨5⟩, ⟨5⟩⟩] ⟨⟨6⟩, ⟨3⟩⟩ =
    (false, [⟨⟨5⟩, ⟨5⟩⟩]) := by
  decide +kernel

end ConceptLaws.Correspondence
