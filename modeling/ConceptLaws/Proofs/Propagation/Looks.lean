import ConceptLaws.Proofs.Propagation.Completion

/-! The looks of a cascade.
A check takes one look at its key and, if that completes the key, one at every key above, until one
of them is left as it is; before that it may probe the sources of open edges. The looks are listed
in the order in which they are taken, each with the network it was taken on. Between two looks the
network moves by satisfying edges and completing keys. -/

namespace ConceptLaws.Propagation

/-- What came of settling a key, on the network that was reached then. -/
structure Look where
  network : Network
  key : Address
  answer : Network.Standing

namespace Network

/-! ## Lists of looks -/

/-- The looks that a probe takes. -/
abbrev ProbeLooks := Network → Address → List Look

def probeAllLooks (probe : Probe) (looks : ProbeLooks) (network : Network) (handle : Handle) :
    List (Path × Address) → List Look
  | [] => []
  | (path, source) :: rest =>
    looks network source ++
      match probe network source with
      | (false, _) => []
      | (true, network) =>
        probeAllLooks probe looks (network.satisfy ⟨handle, path⟩ source).2 handle rest

/-- The looks at other keys while one is settled. -/
def settleLooks (probe : Option (Probe × ProbeLooks)) (key : Address) : Nat → Network → List Look
  | 0, _ => []
  | turns + 1, network =>
    match network.standing key with
    | .open edges =>
      let (progressed, left, network) := network.satisfyDone key.tree edges
      if left.isEmpty || progressed then settleLooks probe key turns network
      else match probe with
        | none => []
        | some (ask, looks) =>
          probeAllLooks ask looks network key.tree left ++
            match probeAll ask network key.tree left with
            | (false, _) => []
            | (true, network) => settleLooks probe key turns network
    | _ => []

def attemptLooks (cascade : Cascade) (probe : Option (Probe × ProbeLooks)) (above : ProbeLooks)
    (network : Network) (key : Address) : List Look :=
  let turns := network.pendingWeight + 1
  let (answer, settled) := settleKey (probe.map Prod.fst) key turns network
  settleLooks probe key turns network ++ ⟨settled, key, answer⟩ ::
    match answer, key.path.parent? with
    | .ready, some parent => above (settled.complete cascade key) ⟨key.tree, parent⟩
    | _, _ => []

def checkUpLooks (cascade : Cascade) : Nat → ProbeLooks
  | 0 => attemptLooks cascade none fun _ _ => []
  | levels + 1 => attemptLooks cascade none (checkUpLooks cascade levels)

def checkLooks (cascade : Cascade) (network : Network) (key : Address) : List Look :=
  checkUpLooks cascade key.path.length network key

def probeKeyLooks (cascade : Cascade) : Nat → Std.ExtTreeSet Address → ProbeLooks
  | 0, _ => attemptLooks cascade none (checkLooks cascade)
  | depth + 1, visiting => fun network key =>
    let probe : Option (Probe × ProbeLooks) :=
      if visiting.contains key then none
      else some (probeKey cascade depth (visiting.insert key),
        probeKeyLooks cascade depth (visiting.insert key))
    attemptLooks cascade probe (checkLooks cascade) network key

def handleLooks (network : Network) : Event → List Look
  | .resolve waiter source =>
    match network.satisfy waiter source with
    | (false, _) => []
    | (true, network) => checkLooks id network waiter
  | .check key => checkLooks id network key

def drainStepsLooks : Nat → Network → List Look
  | steps, network =>
    match network.agenda.pop? with
    | none => []
    | some (event, agenda) =>
      match steps with
      | 0 => []
      | steps + 1 =>
        let network := { network with agenda }.countEvent
        handleLooks network event ++ drainStepsLooks steps (network.handle event)

def drainLooks (network : Network) : List Look := drainStepsLooks network.maxSteps network

/-! ## Moves -/

/-- What happens between two looks, with the look that ends it. -/
inductive Move (network : Network) : List Look → Network → Prop
  | satisfy {waiter source : Address} (attached : network.Attached waiter source true) :
      Move network [] (network.satisfy waiter source).2
  | pass (key : Address) {answer : Standing} (unready : answer ≠ .ready) :
      Move network [⟨network, key, answer⟩] network
  | complete {cascade : Cascade} (orderly : Orderly cascade) {key : Address}
      (ready : network.standing key = .ready) :
      Move network [⟨network, key, .ready⟩] (network.complete cascade key)

inductive Run : Network → List Look → Network → Prop
  | refl (network : Network) : Run network [] network
  | step {first second third : Network} {looks later : List Look} (move : Move first looks second)
      (rest : Run second later third) : Run first (looks ++ later) third

theorem Move.run {network later : Network} {looks : List Look} (move : Move network looks later) :
    Run network looks later := by
  have single := Run.step move (.refl later)
  rwa [List.append_nil] at single

theorem Run.trans {first second third : Network} {looks later : List Look}
    (earlier : Run first looks second) (rest : Run second later third) :
    Run first (looks ++ later) third := by
  induction earlier with
  | refl => exact rest
  | step move _ ih =>
    rw [List.append_assoc]
    exact .step move (ih rest)

theorem Sound.advances_satisfy {network : Network} (sound : network.Sound)
    {waiter source : Address} (attached : network.Attached waiter source true) :
    network.Advances (network.satisfy waiter source).2 := by
  unfold satisfy
  split
  · exact sound.advances_refl
  · split
    · exact sound.advances_refl
    · have satisfied := sound.advances_satisfied attached
      dsimp only
      split
      · exact satisfied
      · have counted := satisfied.sound.advances_tame
          (satisfied.sound.tame_updateCounts fun counts =>
            { counts with callbacks := counts.callbacks + 1 })
        exact (satisfied.trans counted).trans (counted.sound.advances_bindCommand _ _ _)

theorem Move.advances {network later : Network} {looks : List Look}
    (move : Move network looks later) (sound : network.Sound) : network.Advances later := by
  cases move with
  | satisfy attached => exact sound.advances_satisfy attached
  | pass => exact sound.advances_refl
  | complete orderly ready => exact (sound.advances_complete orderly ready).1

theorem Run.advances {network later : Network} {looks : List Look}
    (run : Run network looks later) (sound : network.Sound) : network.Advances later := by
  induction run with
  | refl => exact sound.advances_refl
  | step move _ ih =>
    have first := move.advances sound
    exact first.trans (ih first.sound)

/-! ## Checks as runs -/

/-- `waiter` holds an edge to `source`, satisfied or not. -/
def Waits (network : Network) (waiter source : Address) : Prop :=
  ∃ done, network.HasEdge waiter source done

theorem Waits.evolve {network later : Network} {waiter source : Address}
    (waits : network.Waits waiter source) (evolves : network.Evolves later) :
    later.Waits waiter source := by
  obtain ⟨done, cell, edge, found, held, -⟩ := waits
  have linked : cell.isUnlinked = false := by
    rw [← Bool.not_eq_true, Cell.isUnlinked_iff]
    rintro ⟨none_, -⟩
    simp [none_ source] at held
  obtain ⟨after, foundAfter, grows⟩ := evolves.kept waiter cell found (Or.inr linked)
  obtain ⟨edgeAfter, heldAfter, -⟩ := grows.waiting source edge held
  exact ⟨edgeAfter.satisfied, after, edgeAfter, foundAfter, heldAfter, rfl⟩

theorem Sound.attached_of_waits {network : Network} (sound : network.Sound)
    {waiter source : Address} (waits : network.Waits waiter source)
    (propagated : (network.tree? source.tree).isSome → network.isPropagated source = true) :
    network.Attached waiter source true := by
  obtain ⟨done, held⟩ := waits
  exact (sound.linked waiter source done held).of_propagated propagated

/-- The edges of a list are held by keys of a tree. -/
def Held (network : Network) (handle : Handle) (edges : List (Path × Address)) : Prop :=
  ∀ edge ∈ edges, network.Waits ⟨handle, edge.1⟩ edge.2

theorem Held.evolve {network later : Network} {handle : Handle} {edges : List (Path × Address)}
    (held : network.Held handle edges) (evolves : network.Evolves later) :
    later.Held handle edges :=
  fun edge member => (held edge member).evolve evolves

theorem held_of_open {network : Network} {key : Address} {edges : List (Path × Address)}
    (waits : network.standing key = .open edges) : network.Held key.tree edges :=
  fun _ member => ⟨false, hasEdge_of_open waits member⟩

theorem satisfyDone_left_subset (handle : Handle) (edges : List (Path × Address))
    (network : Network) : (network.satisfyDone handle edges).2.1 ⊆ edges := by
  induction edges generalizing network with
  | nil => simp [satisfyDone]
  | cons first rest ih =>
    unfold satisfyDone
    split
    · exact List.subset_cons_of_subset first (ih _)
    · exact List.cons_subset_cons first (ih _)

theorem Sound.run_satisfyDone (handle : Handle) (edges : List (Path × Address))
    {network : Network} (sound : network.Sound) (held : network.Held handle edges) :
    Run network [] (network.satisfyDone handle edges).2.2 := by
  induction edges generalizing network with
  | nil => exact .refl network
  | cons first rest ih =>
    have later : network.Held handle rest :=
      fun edge member => held edge (List.mem_cons_of_mem first member)
    unfold satisfyDone
    split
    · rename_i propagated
      have move : Move network [] _ := Move.satisfy
        (sound.attached_of_waits (held first (List.mem_cons_self ..)) fun _ => propagated)
      have advances := move.advances sound
      exact .step move (ih advances.sound (later.evolve advances.evolves))
    · exact ih sound later

/-- What is asked of a probe: it runs, and where it succeeds on a source that is waited on, the
source has propagated. -/
structure Sincere (probe : Probe) (looks : ProbeLooks) : Prop where
  run : ∀ network key, network.Sound → Run network (looks network key) (probe network key).2
  done : ∀ network waiter key, network.Sound → network.Waits waiter key →
    (probe network key).1 = true → (probe network key).2.isPropagated key = true

theorem Sincere.run_probeAll {probe : Probe} {looks : ProbeLooks} (sincere : Sincere probe looks)
    (handle : Handle) (edges : List (Path × Address)) {network : Network} (sound : network.Sound)
    (held : network.Held handle edges) :
    Run network (probeAllLooks probe looks network handle edges)
      (probeAll probe network handle edges).2 := by
  induction edges generalizing network with
  | nil => exact .refl network
  | cons first rest ih =>
    have asked := sincere.run network first.2 sound
    have waits := held first (List.mem_cons_self ..)
    have propagated := sincere.done network ⟨handle, first.1⟩ first.2 sound waits
    have advances := asked.advances sound
    unfold probeAllLooks probeAll
    refine asked.trans ?_
    generalize probe network first.2 = outcome at *
    obtain ⟨succeeded, later⟩ := outcome
    cases succeeded with
    | false => exact .refl later
    | true =>
      have move : Move later [] _ := Move.satisfy
        (advances.sound.attached_of_waits (waits.evolve advances.evolves) fun _ => propagated rfl)
      have satisfied := move.advances advances.sound
      refine .step move (ih satisfied.sound fun edge member => ?_)
      have before := held edge (List.mem_cons_of_mem first member)
      exact (before.evolve advances.evolves).evolve satisfied.evolves

/-- Settling a key runs, and what it answers is what a look at the key says then. -/
theorem Sound.run_settleKey (probe : Option (Probe × ProbeLooks))
    (sincere : ∀ pair ∈ probe, Sincere pair.1 pair.2) (key : Address) (turns : Nat)
    {network : Network} (sound : network.Sound) :
    Run network (settleLooks probe key turns network)
        (settleKey (probe.map Prod.fst) key turns network).2 ∧
      ((settleKey (probe.map Prod.fst) key turns network).1 = .ready →
        (settleKey (probe.map Prod.fst) key turns network).2.standing key = .ready) ∧
      ((settleKey (probe.map Prod.fst) key turns network).1 = .complete →
        (settleKey (probe.map Prod.fst) key turns network).2.standing key = .complete) := by
  induction turns generalizing network with
  | zero => exact ⟨.refl network, by simp [settleKey], by simp [settleKey]⟩
  | succ turns ih =>
    unfold settleLooks settleKey
    cases stands : network.standing key with
    | complete => exact ⟨.refl network, by simp, fun _ => stands⟩
    | stuck => exact ⟨.refl network, by simp, by simp⟩
    | ready => exact ⟨.refl network, fun _ => stands, by simp⟩
    | «open» edges =>
      have held := held_of_open stands
      have satisfied := sound.run_satisfyDone key.tree edges held
      have subset := satisfyDone_left_subset key.tree edges network
      have advances := satisfied.advances sound
      dsimp only
      generalize network.satisfyDone key.tree edges = outcome at *
      obtain ⟨progressed, left, later⟩ := outcome
      dsimp only at *
      split
      · obtain ⟨run, answers⟩ := ih advances.sound
        exact ⟨satisfied.trans run, answers⟩
      · cases probe with
        | none => exact ⟨satisfied, by simp, by simp⟩
        | some pair =>
          have heldLater : later.Held key.tree left :=
            fun edge member => (held edge (subset member)).evolve advances.evolves
          have asked := (sincere pair rfl).run_probeAll key.tree left advances.sound heldLater
          have advancesAsked := asked.advances advances.sound
          obtain ⟨ask, looks⟩ := pair
          simp only [Option.map_some]
          generalize probeAll ask later key.tree left = found at *
          obtain ⟨succeeded, final⟩ := found
          cases succeeded with
          | false => exact ⟨satisfied.trans (asked.trans (.refl final)), by simp, by simp⟩
          | true =>
            obtain ⟨run, answers⟩ := ih advancesAsked.sound
            exact ⟨satisfied.trans (asked.trans run), answers⟩

/-- As long as something waits on a key, it stays complete. -/
theorem Sound.isPropagated_evolve {network later : Network} (sound : network.Sound)
    {waiter key : Address} (waits : network.Waits waiter key)
    (propagated : network.isPropagated key = true) (evolves : network.Evolves later) :
    later.isPropagated key = true := by
  obtain ⟨cell, found, done⟩ := isPropagated_iff.1 propagated
  obtain ⟨tree, live, -⟩ := cell?_eq_some_iff.1 found
  obtain ⟨edgeDone, held⟩ := waits
  obtain ⟨-, attached⟩ := sound.linked waiter key edgeDone held
  obtain ⟨other, foundOther, member, -⟩ := attached (by simp [live])
  obtain rfl : cell = other := Option.some.inj (found.symm.trans foundOther)
  have linked : cell.isUnlinked = false := by
    rw [← Bool.not_eq_true, Cell.isUnlinked_iff]
    exact fun unlinked => unlinked.2 waiter member
  obtain ⟨after, foundAfter, grows⟩ := evolves.kept key cell found (Or.inr linked)
  exact isPropagated_iff.2 ⟨after, foundAfter, grows.propagated done⟩

/-- An attempt is a run; it succeeds on keys that have propagated then. -/
theorem sincere_attempt {cascade : Cascade} (orderly : Orderly cascade)
    (probe : Option (Probe × ProbeLooks)) (sincere : ∀ pair ∈ probe, Sincere pair.1 pair.2)
    (above : Network → Address → Network) (aboveLooks : ProbeLooks)
    (runAbove : ∀ network key, network.Sound →
      Run network (aboveLooks network key) (above network key)) :
    Sincere (attempt cascade (probe.map Prod.fst) above)
      (attemptLooks cascade probe aboveLooks) := by
  have finished : ∀ network key, network.Sound →
      Run network (attemptLooks cascade probe aboveLooks network key)
          (attempt cascade (probe.map Prod.fst) above network key).2 ∧
        ∀ waiter, network.Waits waiter key →
          (attempt cascade (probe.map Prod.fst) above network key).1 = true →
            (attempt cascade (probe.map Prod.fst) above network key).2.isPropagated key = true := by
    intro network key sound
    obtain ⟨settled, ready, complete⟩ :=
      sound.run_settleKey probe sincere key (network.pendingWeight + 1)
    have advances := settled.advances sound
    unfold attemptLooks attempt
    dsimp only
    generalize settleKey (probe.map Prod.fst) key (network.pendingWeight + 1) network = outcome at *
    obtain ⟨answer, later⟩ := outcome
    dsimp only at *
    cases answer with
    | complete =>
      exact ⟨settled.trans (Move.pass key (by simp)).run,
        fun _ _ _ => standing_eq_complete_iff.1 (complete rfl)⟩
    | stuck => exact ⟨settled.trans (Move.pass key (by simp)).run, by simp⟩
    | «open» edges => exact ⟨settled.trans (Move.pass key (by simp)).run, by simp⟩
    | ready =>
      have move : Move later _ _ := Move.complete orderly (ready rfl)
      obtain ⟨completed, propagated⟩ := advances.sound.advances_complete orderly (ready rfl)
      dsimp only
      cases key.path.parent? with
      | none => exact ⟨settled.trans move.run, fun _ _ _ => propagated⟩
      | some parent =>
        have upward := runAbove _ ⟨key.tree, parent⟩ completed.sound
        refine ⟨settled.trans (.step move upward), fun waiter waits _ => ?_⟩
        have held := (waits.evolve advances.evolves).evolve completed.evolves
        exact completed.sound.isPropagated_evolve held propagated
          (upward.advances completed.sound).evolves
  exact ⟨fun network key sound => (finished network key sound).1,
    fun network waiter key sound waits => (finished network key sound).2 waiter waits⟩

theorem sincere_checkUp {cascade : Cascade} (orderly : Orderly cascade) (levels : Nat) :
    Sincere (checkUp cascade levels) (checkUpLooks cascade levels) := by
  induction levels with
  | zero => exact sincere_attempt orderly none (by simp) _ _ fun network _ _ => .refl network
  | succ levels ih => exact sincere_attempt orderly none (by simp) _ _ ih.run

theorem sincere_check {cascade : Cascade} (orderly : Orderly cascade) :
    Sincere (fun network => network.check cascade) (checkLooks cascade) :=
  ⟨fun network key => (sincere_checkUp orderly key.path.length).run network key,
    fun network waiter key => (sincere_checkUp orderly key.path.length).done network waiter key⟩

theorem sincere_probeKey {cascade : Cascade} (orderly : Orderly cascade) (depth : Nat)
    (visiting : Std.ExtTreeSet Address) :
    Sincere (probeKey cascade depth visiting) (probeKeyLooks cascade depth visiting) := by
  induction depth generalizing visiting with
  | zero => exact sincere_attempt orderly none (by simp) _ _ (sincere_check orderly).run
  | succ depth ih =>
    have refused := sincere_attempt orderly none (by simp) _ _ (sincere_check orderly).run
    have asked := fun key => sincere_attempt orderly
      (some (probeKey cascade depth (visiting.insert key),
        probeKeyLooks cascade depth (visiting.insert key)))
      (by rintro pair ⟨⟩; exact ih (visiting.insert key)) _ _ (sincere_check orderly).run
    unfold probeKey probeKeyLooks
    refine ⟨fun network key sound => ?_, fun network waiter key sound waits => ?_⟩
    · dsimp only
      split
      · exact refused.run network key sound
      · exact (asked key).run network key sound
    · dsimp only
      split
      · exact refused.done network waiter key sound waits
      · exact (asked key).done network waiter key sound waits

/-! ## Cascades as courses -/

/-- Runs, and tame edits between them. -/
inductive Course : Network → List Look → Network → Prop
  | refl (network : Network) : Course network [] network
  | run {first second third : Network} {looks later : List Look} (run : Run first looks second)
      (rest : Course second later third) : Course first (looks ++ later) third
  | tame {first second third : Network} {looks : List Look} (tame : first.Tame second)
      (rest : Course second looks third) : Course first looks third

theorem Course.trans {first second third : Network} {looks later : List Look}
    (earlier : Course first looks second) (rest : Course second later third) :
    Course first (looks ++ later) third := by
  induction earlier with
  | refl => exact rest
  | run run _ ih =>
    rw [List.append_assoc]
    exact .run run (ih rest)
  | tame tame _ ih => exact .tame tame (ih rest)

theorem Course.advances {network later : Network} {looks : List Look}
    (course : Course network looks later) (sound : network.Sound) : network.Advances later := by
  induction course with
  | refl => exact sound.advances_refl
  | run run _ ih =>
    have first := run.advances sound
    exact first.trans (ih first.sound)
  | tame tame _ ih =>
    have first := sound.advances_tame tame
    exact first.trans (ih first.sound)

theorem Sound.run_handle {network : Network} (sound : network.Sound) (event : Event)
    (attached : ∀ waiter source, event = .resolve waiter source →
      network.Attached waiter source true) :
    Run network (handleLooks network event) (network.handle event) := by
  cases event with
  | check key => exact (sincere_check orderly_id).run network key sound
  | resolve waiter source =>
    have move : Move network [] _ := Move.satisfy (attached waiter source rfl)
    have advances := move.advances sound
    unfold handle resolveEdge handleLooks
    dsimp only
    generalize network.satisfy waiter source = outcome at *
    obtain ⟨newly, later⟩ := outcome
    cases newly with
    | false => exact move.run
    | true => exact .step move ((sincere_check orderly_id).run later waiter advances.sound)

/-- The event that is taken was on the agenda, and so were those that are left. -/
theorem mem_of_pop? {agenda rest : Agenda} {event : Event}
    (taken : agenda.pop? = some (event, rest)) :
    event ∈ agenda.events ∧ ∀ other ∈ rest.events, other ∈ agenda.events := by
  unfold Agenda.pop? at taken
  split at taken
  · simp at taken
  · rename_i key others listed
    obtain ⟨rfl, rfl⟩ := Prod.mk.inj (Option.some.inj taken)
    rw [listed]
    exact ⟨List.mem_cons_self .., fun other => List.mem_cons_of_mem _⟩
  · rename_i first others _ listed
    obtain ⟨rfl, rfl⟩ := Prod.mk.inj (Option.some.inj taken)
    rw [listed]
    exact ⟨List.mem_cons_self .., fun other => List.mem_cons_of_mem _⟩

theorem Sound.course_drainSteps (steps : Nat) {network : Network} (sound : network.Sound) :
    Course network (drainStepsLooks steps network) (network.drainSteps steps) := by
  induction steps generalizing network with
  | zero =>
    unfold drainStepsLooks drainSteps
    cases network.agenda.pop? with
    | none => exact .refl network
    | some pair =>
      obtain ⟨event, agenda⟩ := pair
      have dropped : network.Tame
          { ({ network with agenda } : Network).countEvent with agenda := .empty } :=
        sound.tame_of_trees rfl fun _ _ member => by simp [Agenda.empty] at member
      exact .tame dropped (.refl _)
  | succ steps ih =>
    unfold drainStepsLooks drainSteps
    cases taken : network.agenda.pop? with
    | none => exact .refl network
    | some pair =>
      obtain ⟨event, agenda⟩ := pair
      obtain ⟨listed, left⟩ := mem_of_pop? taken
      dsimp only
      have taking : network.Tame ({ network with agenda } : Network).countEvent :=
        sound.tame_of_trees rfl fun _ _ => left _
      have soundTaken := sound.tame taking
      have handled := soundTaken.run_handle event fun waiter source same =>
        (sound.queued waiter source (same ▸ listed)).evolve taking.evolves
      exact .tame taking (.run handled (ih (handled.advances soundTaken).sound))

theorem Sound.course_drain {network : Network} (sound : network.Sound) :
    Course network (drainLooks network) network.drain :=
  sound.course_drainSteps network.maxSteps

theorem orderly_drain : Orderly drain := fun _ sound => sound.course_drain.advances sound

end Network

end ConceptLaws.Propagation
