import ConceptLaws.Proofs.Propagation.Attention
import ConceptLaws.Proofs.Propagation.Reachable

/-! Waking up keys.
Settling looks at every active key that is not complete. A key that a look leaves open is looked at
again when one of its own edges is satisfied by an event, but not when the check of another key
satisfies the edge. -/

namespace ConceptLaws.Propagation

/-! ## Weights -/

theorem lt_foldl_of_mem {α : Type} {step : Nat → α → Nat} (grows : ∀ total entry,
    total ≤ step total entry) {entries : List α} {entry : α} (member : entry ∈ entries)
    (adds : ∀ total, total < step total entry) (start : Nat) :
    start < entries.foldl step start := by
  induction entries generalizing start with
  | nil => simp at member
  | cons first rest ih =>
    have never : ∀ (others : List α) (total : Nat), total ≤ others.foldl step total := by
      intro others
      induction others with
      | nil => exact fun _ => Nat.le_refl _
      | cons next last ih => exact fun total => Nat.le_trans (grows total next) (ih _)
    rw [List.foldl_cons]
    rcases List.mem_cons.1 member with rfl | later
    · exact Nat.lt_of_lt_of_le (adds start) (never rest _)
    · exact Nat.lt_of_le_of_lt (grows start first) (ih later _)

theorem Cell.pendingWeight_pos {cell : Cell} {source : Address} (waits : source ∈ cell.pending) :
    0 < cell.pendingWeight := by
  obtain ⟨edge, held, unsatisfied⟩ := Tree.mem_pending.1 waits
  unfold pendingWeight
  rw [Std.ExtTreeMap.foldl_eq_foldl_toList]
  refine lt_foldl_of_mem (fun total entry => ?_)
    (Std.ExtTreeMap.mem_toList_iff_getElem?_eq_some.2 held) (fun total => ?_) 0
  · split
    · exact Nat.le_refl total
    · exact Nat.le_add_right total _
  · simp only [unsatisfied, Bool.false_eq_true, ↓reduceIte]
    split <;> omega

namespace Network

theorem pendingWeight_pos {network : Network} {waiter source : Address}
    (open_ : network.HasEdge waiter source false) : 0 < network.pendingWeight := by
  obtain ⟨cell, edge, found, held, unsatisfied⟩ := open_
  obtain ⟨tree, live, present⟩ := cell?_eq_some_iff.1 found
  have cellWeight := Cell.pendingWeight_pos (Tree.mem_pending.2 ⟨edge, held, unsatisfied⟩)
  have treeWeight : 0 < tree.pendingWeight := by
    unfold Tree.pendingWeight
    rw [Std.ExtTreeMap.foldl_eq_foldl_toList]
    refine lt_foldl_of_mem (fun total (entry : Path × Cell) => Nat.le_add_right _ _)
      (Tree.mem_keys.2 present) (fun total => ?_) 0
    exact Nat.lt_add_of_pos_right cellWeight
  have member := Arena.mem_entries.2 live
  unfold pendingWeight total
  generalize network.trees.entries = entries at member
  induction entries with
  | nil => simp at member
  | cons first rest ih =>
    rw [List.foldr_cons]
    rcases List.mem_cons.1 member with rfl | later
    · exact Nat.add_pos_left treeWeight _
    · exact Nat.add_pos_right _ (ih later)

/-! ## Settling a key without a probe -/

/-- What a look says about the network it was taken on: open edges are left only where the source
has not propagated. -/
def Standing.Holds (network : Network) (key : Address) : Standing → Prop
  | complete => network.standing key = .complete
  | ready => network.standing key = .ready
  | stuck => network.standing key = .stuck ∨ ∃ edges, network.standing key = .open edges ∧
      ∀ edge ∈ edges, network.isPropagated edge.2 = false
  | .open _ => False

theorem satisfyDone_eq_self (handle : Handle) {edges : List (Path × Address)} {network : Network}
    (unfinished : ∀ edge ∈ edges, network.isPropagated edge.2 = false) :
    network.satisfyDone handle edges = (false, edges, network) := by
  induction edges with
  | nil => rfl
  | cons first rest ih =>
    obtain ⟨here, later⟩ := List.forall_mem_cons.1 unfinished
    simp [satisfyDone, here, ih later]

/-- The edges whose sources have propagated are satisfied, and the others are as they were. -/
structure Sorted (network later : Network) (handle : Handle) (edges : List (Path × Address)) :
    Prop where
  heeds : network.Heeds later
  same : ∀ key, later.isPropagated key = network.isPropagated key
  done : ∀ edge ∈ edges, network.isPropagated edge.2 = true →
    network.Waits ⟨handle, edge.1⟩ edge.2 → later.HasEdge ⟨handle, edge.1⟩ edge.2 true
  left : ∀ waiter source state, network.isPropagated source = false →
    network.HasEdge waiter source state → later.HasEdge waiter source state

theorem Passive.sorted_satisfyDone (handle : Handle) (edges : List (Path × Address))
    {network : Network} (passive : network.Passive) :
    Sorted network (network.satisfyDone handle edges).2.2 handle edges ∧
      ∀ edge ∈ (network.satisfyDone handle edges).2.1,
        edge ∈ edges ∧ network.isPropagated edge.2 = false := by
  induction edges generalizing network with
  | nil =>
    exact ⟨⟨network.heeds_refl, fun _ => rfl, by simp, fun _ _ _ _ => id⟩, by simp [satisfyDone]⟩
  | cons first rest ih =>
    unfold satisfyDone
    split
    · rename_i propagated
      have step := passive.satisfies ⟨handle, first.1⟩ first.2
      obtain ⟨sorted, left⟩ := ih (passive.progress step.heeds.progress)
      refine ⟨⟨step.heeds.trans sorted.heeds, fun key => (sorted.same key).trans (step.same key),
        fun edge member done waits => ?_, fun waiter source state unfinished held => ?_⟩,
        fun edge member => ?_⟩
      · rcases List.mem_cons.1 member with rfl | later
        · exact sorted.heeds.progress.satisfied (step.done waits)
        · exact sorted.done edge later ((step.same edge.2).trans done)
            (step.heeds.progress.waits.2 waits)
      · refine sorted.left waiter source state ((step.same source).trans unfinished)
          (step.others waiter source state ?_ held)
        rintro rfl
        simp [propagated] at unfinished
      · obtain ⟨listed, unfinished⟩ := left edge member
        exact ⟨List.mem_cons_of_mem first listed, (step.same edge.2).symm.trans unfinished⟩
    · rename_i unfinished
      rw [Bool.not_eq_true] at unfinished
      obtain ⟨sorted, left⟩ := ih passive
      refine ⟨⟨sorted.heeds, sorted.same, fun edge member done waits => ?_, sorted.left⟩,
        fun edge member => ?_⟩
      · rcases List.mem_cons.1 member with rfl | later
        · simp [unfinished] at done
        · exact sorted.done edge later done waits
      · rcases List.mem_cons.1 member with rfl | later
        · exact ⟨List.mem_cons_self .., unfinished⟩
        · exact ⟨List.mem_cons_of_mem first (left edge later).1, (left edge later).2⟩

/-- After one round no edge is open whose source has propagated. -/
theorem Sorted.holds {network later : Network} {key : Address} {edges : List (Path × Address)}
    (sorted : Sorted network later key.tree edges) (waits : network.standing key = .open edges) :
    later.standing key = .ready ∧ (∀ edge ∈ edges, network.isPropagated edge.2 = true) ∨
      ∃ rest, later.standing key = .open rest ∧
        ∀ edge ∈ rest, later.isPropagated edge.2 = false := by
  have unfinished : later.isPropagated key = false := by
    rw [sorted.same, ← Bool.not_eq_true, ← standing_eq_complete_iff]
    simp [waits]
  rcases sorted.heeds.progress.standing_open waits unfinished with
    ⟨ready, satisfied⟩ | ⟨rest, still, subset⟩
  · refine Or.inl ⟨ready, fun edge member => ?_⟩
    rw [← Bool.not_eq_false]
    intro waiting
    have open_ := sorted.left _ _ _ waiting (hasEdge_of_open waits member)
    simpa using hasEdge_unique open_ (satisfied edge member)
  · refine Or.inr ⟨rest, still, fun edge member => ?_⟩
    rw [sorted.same, ← Bool.not_eq_true]
    intro propagated
    have closed := sorted.done edge (subset member) propagated
      ⟨false, hasEdge_of_open waits (subset member)⟩
    simpa using hasEdge_unique closed (hasEdge_of_open still member)

/-- Two turns are enough. -/
theorem Passive.settleKey_holds {network : Network} (passive : network.Passive) (key : Address) :
    network.Heeds (settleKey none key (network.pendingWeight + 1) network).2 ∧
      (settleKey none key (network.pendingWeight + 1) network).1.Holds
        (settleKey none key (network.pendingWeight + 1) network).2 key := by
  cases stands : network.standing key with
  | complete => simp [settleKey, stands, Standing.Holds, heeds_refl]
  | stuck => simp [settleKey, stands, Standing.Holds, heeds_refl]
  | ready => simp [settleKey, stands, Standing.Holds, heeds_refl]
  | «open» edges =>
    obtain ⟨-, -, -, -, -, -, some_⟩ := standing_eq_open_iff.1 stands
    obtain ⟨edge, member⟩ := List.exists_mem_of_ne_nil edges some_
    obtain ⟨turns, weight⟩ := Nat.exists_eq_succ_of_ne_zero
      (Nat.ne_of_gt (pendingWeight_pos (hasEdge_of_open stands member)))
    obtain ⟨sorted, left⟩ := passive.sorted_satisfyDone key.tree edges
    have after := sorted.holds stands
    rw [weight]
    unfold settleKey
    simp only [stands]
    generalize network.satisfyDone key.tree edges = outcome at *
    obtain ⟨progressed, rest, later⟩ := outcome
    dsimp only at *
    rcases after with ⟨ready, all⟩ | ⟨others, still, unfinished⟩
    · have emptied : rest = [] := by
        refine List.eq_nil_iff_forall_not_mem.2 fun edge listed => ?_
        obtain ⟨inside, waiting⟩ := left edge listed
        simp [all edge inside] at waiting
      simpa [emptied, settleKey, ready, Standing.Holds] using sorted.heeds
    · obtain ⟨-, -, -, -, -, -, someLeft⟩ := standing_eq_open_iff.1 still
      have nothing := satisfyDone_eq_self key.tree unfinished
      have decided : (if (rest.isEmpty || progressed) = true
          then settleKey none key turns.succ later else (.stuck, later)) = (.stuck, later) := by
        split
        · simp [settleKey, still, nothing, someLeft]
        · rfl
      rw [decided]
      exact ⟨sorted.heeds, Or.inr ⟨others, still, unfinished⟩⟩

/-! ## Looks in hindsight -/

/-- The edge is satisfied, or its waiter is told once the source propagates. -/
def Alert (network : Network) (waiter source : Address) : Prop :=
  network.HasEdge waiter source true ∨ network.isPropagated source = false ∨
    Event.resolve waiter source ∈ network.agenda.events

theorem Heeds.alert {network later : Network} (heeds : network.Heeds later)
    {waiter source : Address} (waits : network.Waits waiter source)
    (alert : network.Alert waiter source) : later.Alert waiter source := by
  rcases alert with satisfied | unfinished | queued
  · exact Or.inl (heeds.progress.satisfied satisfied)
  · cases after : later.isPropagated source with
    | false => exact Or.inr (Or.inl after)
    | true => exact Or.inr (Or.inr (heeds.told waiter source waits unfinished after))
  · exact Or.inr (Or.inr (heeds.agenda.events _ queued))

/-- The key of a look has been completed since, or it was stuck for good, or the open edges are
watched. -/
structure Watched (look : Look) (network : Network) : Prop where
  progress : look.network.Progress network
  outcome : network.isPropagated look.key = true ∨ look.network.standing look.key = .stuck ∨
    ∃ edges, look.network.standing look.key = .open edges ∧
      ∀ edge ∈ edges, network.Alert ⟨look.key.tree, edge.1⟩ edge.2

theorem Watched.follow {look : Look} {network later : Network} (watched : Watched look network)
    (progress : network.Progress later)
    (alert : ∀ waiter source, network.Waits waiter source → network.Alert waiter source →
      later.Alert waiter source) : Watched look later := by
  refine ⟨watched.progress.trans progress, ?_⟩
  rcases watched.outcome with done | stuck | ⟨edges, waits, watching⟩
  · exact Or.inl (progress.isPropagated done)
  · exact Or.inr (Or.inl stuck)
  · refine Or.inr (Or.inr ⟨edges, waits, fun edge member => alert _ _ ?_ (watching edge member)⟩)
    exact watched.progress.waits.2 ⟨false, hasEdge_of_open waits member⟩

theorem Watched.heed {look : Look} {network later : Network} (watched : Watched look network)
    (heeds : network.Heeds later) : Watched look later :=
  watched.follow heeds.progress fun _ _ => heeds.alert

theorem Standing.Holds.watched {network : Network} {key : Address} {answer : Standing}
    (holds : answer.Holds network key) (unready : answer ≠ .ready) :
    Watched ⟨network, key, answer⟩ network := by
  refine ⟨network.progress_refl, ?_⟩
  cases answer with
  | complete => exact Or.inl (standing_eq_complete_iff.1 holds)
  | ready => simp at unready
  | stuck =>
    rcases holds with stuck | ⟨edges, waits, unfinished⟩
    · exact Or.inr (Or.inl stuck)
    · exact Or.inr (Or.inr ⟨edges, waits,
        fun edge member => Or.inr (Or.inl (unfinished edge member))⟩)
  | «open» edges => exact holds.elim

/-- What is asked of a check without probes: waiters are told, and its looks are watched. -/
def Attentive (act : Network → Address → Network) (looks : ProbeLooks) : Prop :=
  ∀ network key, network.Passive → network.Heeds (act network key) ∧
    ∀ look ∈ looks network key, network.Progress look.network ∧ Watched look (act network key)

theorem isPropagated_complete {network : Network} (passive : network.Passive) (cascade : Cascade)
    {key : Address} (ready : network.standing key = .ready) :
    (network.complete cascade key).isPropagated key = true := by
  obtain ⟨tree, cell, able, -⟩ := standing_eq_ready_iff.1 ready
  rw [complete_eq cascade able.live]
  obtain ⟨below, found, -⟩ :=
    (marks_completeBelow cascade network key tree).found able.cell?_eq
  have vacant : (network.completeBelow cascade key tree).command? key.tree = none := by
    have progress := (marks_completeBelow cascade network key tree).progress
    rw [progress.roles.command?, passive.vacant]
  obtain ⟨after, foundAfter, marked⟩ :=
    (marks_runAndPropagate cascade (Or.inr vacant)).found found
  exact isPropagated_iff.2 ⟨after, foundAfter, marked.propagated.2 (Or.inr rfl)⟩

theorem settleLooks_none (key : Address) (turns : Nat) (network : Network) :
    settleLooks none key turns network = [] := by
  induction turns generalizing network with
  | zero => rfl
  | succ turns ih =>
    unfold settleLooks
    split
    · dsimp only
      split
      · exact ih _
      · rfl
    · rfl

theorem attentive_attempt (cascade : Cascade) {above : Network → Address → Network}
    {aboveLooks : ProbeLooks} (attentive : Attentive above aboveLooks) :
    Attentive (fun network key => (attempt cascade none above network key).2)
      (attemptLooks cascade none aboveLooks) := by
  intro network key passive
  obtain ⟨heeds, holds⟩ := passive.settleKey_holds key
  have passiveThen := passive.progress heeds.progress
  unfold attemptLooks attempt
  simp only [Option.map_none, settleLooks_none, List.nil_append]
  generalize settleKey none key (network.pendingWeight + 1) network = outcome at *
  obtain ⟨answer, settled⟩ := outcome
  dsimp only at *
  cases answer with
  | complete => exact ⟨heeds, by simpa using ⟨heeds.progress, holds.watched (by simp)⟩⟩
  | stuck => exact ⟨heeds, by simpa using ⟨heeds.progress, holds.watched (by simp)⟩⟩
  | «open» edges => exact ⟨heeds, by simpa using ⟨heeds.progress, holds.watched (by simp)⟩⟩
  | ready =>
    have completes := passiveThen.heeds_complete cascade key
    have watched : Watched ⟨settled, key, .ready⟩ (settled.complete cascade key) :=
      ⟨completes.progress, Or.inl (isPropagated_complete passiveThen cascade holds)⟩
    dsimp only
    cases key.path.parent? with
    | none => exact ⟨heeds.trans completes, by simpa using ⟨heeds.progress, watched⟩⟩
    | some parent =>
      obtain ⟨upward, seen⟩ := attentive _ ⟨key.tree, parent⟩
        (passiveThen.progress completes.progress)
      refine ⟨(heeds.trans completes).trans upward, fun look member => ?_⟩
      rcases List.mem_cons.1 member with rfl | later
      · exact ⟨heeds.progress, watched.heed upward⟩
      · obtain ⟨progress, watchedLater⟩ := seen look later
        exact ⟨(heeds.progress.trans completes.progress).trans progress, watchedLater⟩

theorem exists_look_attempt (cascade : Cascade) (aboveLooks : ProbeLooks) (network : Network)
    (key : Address) : ∃ look ∈ attemptLooks cascade none aboveLooks network key, look.key = key :=
  ⟨_, List.mem_append_right _ (List.mem_cons_self ..), rfl⟩

theorem attentive_checkUp (cascade : Cascade) (levels : Nat) :
    Attentive (fun network key => (checkUp cascade levels network key).2)
      (checkUpLooks cascade levels) := by
  induction levels with
  | zero => exact attentive_attempt cascade fun network _ _ => ⟨network.heeds_refl, by simp⟩
  | succ levels ih => exact attentive_attempt cascade ih

theorem attentive_check (cascade : Cascade) :
    Attentive (fun network key => (network.check cascade key).2) (checkLooks cascade) :=
  fun network key => attentive_checkUp cascade key.path.length network key

theorem exists_look_check (cascade : Cascade) (network : Network) (key : Address) :
    ∃ look ∈ checkLooks cascade network key, look.key = key := by
  unfold checkLooks
  cases key.path.length with
  | zero => exact exists_look_attempt cascade _ network key
  | succ levels => exact exists_look_attempt cascade _ network key

/-! ## Cascades -/

theorem Passive.handle {network : Network} (passive : network.Passive) (event : Event) :
    network.Heeds (network.handle event) ∧
      (∀ look ∈ handleLooks network event,
        network.Progress look.network ∧ Watched look (network.handle event)) ∧
      (∀ key, event = .check key → ∃ look ∈ handleLooks network event, look.key = key) ∧
      ∀ waiter source, event = .resolve waiter source → network.Waits waiter source →
        (network.handle event).HasEdge waiter source true := by
  cases event with
  | check key =>
    obtain ⟨heeds, watched⟩ := attentive_check id network key passive
    refine ⟨heeds, watched, ?_, by simp⟩
    rintro other ⟨⟩
    exact exists_look_check id network key
  | resolve waiter source =>
    have step := passive.satisfies waiter source
    obtain ⟨heeds, watched⟩ :=
      attentive_check id _ waiter (passive.progress step.heeds.progress)
    unfold Network.handle resolveEdge handleLooks
    dsimp only
    generalize network.satisfy waiter source = outcome at *
    obtain ⟨newly, later⟩ := outcome
    cases newly with
    | false =>
      refine ⟨step.heeds, by simp, by simp, ?_⟩
      rintro _ _ ⟨⟩ waits
      exact step.done waits
    | true =>
      refine ⟨step.heeds.trans heeds, fun look member => ?_, by simp, ?_⟩
      · obtain ⟨progress, now⟩ := watched look member
        exact ⟨step.heeds.progress.trans progress, now⟩
      rintro _ _ ⟨⟩ waits
      exact heeds.progress.satisfied (step.done waits)

/-- Whether a cascade gets to the end of its agenda within a number of events. -/
def drainsWithin : Nat → Network → Bool
  | steps, network =>
    match network.agenda.pop? with
    | none => true
    | some (event, agenda) =>
      match steps with
      | 0 => false
      | steps + 1 =>
        drainsWithin steps (({ network with agenda } : Network).countEvent.handle event)

/-- Every active key that is not complete is still to be checked, or it has been looked at since the
start. -/
structure Awake (start : Network) (looks : List Look) (network : Network) : Prop where
  passive : network.Passive
  progress : start.Progress network
  watched : ∀ look ∈ looks, start.Progress look.network ∧ Watched look network
  awake : ∀ key, network.isActive key = true → network.isPropagated key = false →
    Event.check key ∈ network.agenda.events ∨ ∃ look ∈ looks, look.key = key

/-- Taking an event and handling it. -/
theorem Awake.step {start : Network} {looks : List Look} {network : Network}
    (awake : Awake start looks network) {event : Event} {agenda : Agenda}
    (taken : network.agenda.pop? = some (event, agenda)) :
    Awake start (looks ++ handleLooks ({ network with agenda } : Network).countEvent event)
      (({ network with agenda } : Network).countEvent.handle event) := by
  obtain ⟨-, left⟩ := Agenda.eq_or_mem_of_pop? taken
  have took : network.Progress ({ network with agenda } : Network).countEvent :=
    progress_of_trees rfl
  obtain ⟨heeds, watched, checked, resolved⟩ := (awake.passive.progress took).handle event
  have progress := took.trans heeds.progress
  have alert : ∀ waiter source, network.Waits waiter source → network.Alert waiter source →
      (({ network with agenda } : Network).countEvent.handle event).Alert waiter source := by
    rintro waiter source waits (satisfied | unfinished | queued)
    · exact Or.inl (progress.satisfied satisfied)
    · exact heeds.alert waits (Or.inr (Or.inl unfinished))
    · rcases left _ queued with rfl | later
      · exact Or.inl (resolved waiter source rfl waits)
      · exact heeds.alert waits (Or.inr (Or.inr later))
  refine ⟨awake.passive.progress progress, awake.progress.trans progress, fun look member => ?_,
    fun key active unfinished => ?_⟩
  · rcases List.mem_append.1 member with before | now
    · obtain ⟨since, watchedBefore⟩ := awake.watched look before
      exact ⟨since, watchedBefore.follow progress alert⟩
    · obtain ⟨since, watchedNow⟩ := watched look now
      exact ⟨(awake.progress.trans took).trans since, watchedNow⟩
  · have unfinishedBefore : network.isPropagated key = false := by
      rw [← Bool.not_eq_true] at unfinished ⊢
      exact fun done => unfinished (progress.isPropagated done)
    rcases awake.awake key (progress.isActive key ▸ active) unfinishedBefore with
      queued | ⟨look, member, same⟩
    · rcases left _ queued with rfl | later
      · obtain ⟨look, member, same⟩ := checked key rfl
        exact Or.inr ⟨look, List.mem_append_right _ member, same⟩
      · exact Or.inl (heeds.agenda.events _ later)
    · exact Or.inr ⟨look, List.mem_append_left _ member, same⟩

theorem Awake.drainSteps (steps : Nat) {start : Network} {looks : List Look} {network : Network}
    (awake : Awake start looks network) (drains : drainsWithin steps network = true) :
    Awake start (looks ++ drainStepsLooks steps network) (network.drainSteps steps) ∧
      (network.drainSteps steps).agenda.events = [] := by
  induction steps generalizing looks network with
  | zero =>
    unfold drainsWithin at drains
    unfold drainStepsLooks Network.drainSteps
    cases taken : network.agenda.pop? with
    | none => exact ⟨by simpa using awake, Agenda.events_of_pop?_eq_none taken⟩
    | some pair => simp [taken] at drains
  | succ steps ih =>
    unfold drainsWithin at drains
    unfold drainStepsLooks Network.drainSteps
    cases taken : network.agenda.pop? with
    | none => exact ⟨by simpa using awake, Agenda.events_of_pop?_eq_none taken⟩
    | some pair =>
      obtain ⟨event, agenda⟩ := pair
      simp only [taken] at drains
      dsimp only
      rw [← List.append_assoc]
      exact ih (awake.step taken) drains

/-! ## Keys that could be woken up -/

/-- A check finds something to do. -/
def Wakeable (network : Network) (key : Address) : Prop :=
  network.isActive key = true ∧ network.isPropagated key = false ∧
    (network.checkResolved key false).1 = true

/-- A look at the key can get no further: it is stuck, or it waits for sources that have not
propagated. -/
def Asleep (network : Network) (key : Address) : Prop :=
  network.standing key = .stuck ∨ ∃ edges, network.standing key = .open edges ∧
    ∀ edge ∈ edges, network.isPropagated edge.2 = false

theorem Asleep.settleKey {network : Network} {key : Address} (asleep : network.Asleep key)
    (turns : Nat) : settleKey none key turns network = (.stuck, network) := by
  cases turns with
  | zero => rfl
  | succ turns =>
    rcases asleep with stuck | ⟨edges, waits, unfinished⟩
    · simp [Network.settleKey, stuck]
    · obtain ⟨-, -, -, -, -, -, some_⟩ := standing_eq_open_iff.1 waits
      simp [Network.settleKey, waits, satisfyDone_eq_self key.tree unfinished, some_]

theorem Asleep.check {network : Network} {key : Address} (asleep : network.Asleep key)
    (cascade : Cascade) : network.check cascade key = (false, network) := by
  unfold Network.check
  cases key.path.length <;> simp [checkUp, attempt, asleep.settleKey]

theorem check_of_ready {network : Network} {key : Address} (ready : network.standing key = .ready)
    (cascade : Cascade) : (network.check cascade key).1 = true := by
  unfold check
  cases key.path.length <;> simp [checkUp, attempt, settleKey, ready]

/-- A look found edges open at or below the key, and all of them have been satisfied since, but the
key has not been completed. -/
def Overlooked (looks : List Look) (network : Network) (key : Address) : Prop :=
  network.isPropagated key = false ∧ ∃ look ∈ looks, look.key = key ∧
    ∃ edges, look.network.standing key = .open edges ∧
      ∀ edge ∈ edges, network.HasEdge ⟨key.tree, edge.1⟩ edge.2 true

section Finished

variable {start network : Network} {looks : List Look} {key : Address}

theorem Awake.asleep_or_overlooked (awake : Awake start looks network)
    (finished : network.agenda.events = []) (active : network.isActive key = true)
    (unfinished : network.isPropagated key = false) :
    network.Asleep key ∨ Overlooked looks network key := by
  obtain ⟨look, member, rfl⟩ := (awake.awake key active unfinished).resolve_left
    (by simp [finished])
  obtain ⟨-, watched⟩ := awake.watched look member
  rcases watched.outcome with done | stuck | ⟨edges, waits, alert⟩
  · simp [unfinished] at done
  · rcases watched.progress.stuck stuck with still | done
    · exact Or.inl (Or.inl still)
    · simp [standing_eq_complete_iff.1 done] at unfinished
  · rcases watched.progress.standing_open waits unfinished with
      ⟨-, satisfied⟩ | ⟨rest, still, subset⟩
    · exact Or.inr ⟨unfinished, look, member, rfl, edges, waits, satisfied⟩
    · refine Or.inl (Or.inr ⟨rest, still, fun edge listed => ?_⟩)
      rcases alert edge (subset listed) with satisfied | unfinished | queued
      · simpa using hasEdge_unique satisfied (hasEdge_of_open still listed)
      · exact unfinished
      · simp [finished] at queued

theorem Awake.ready_of_overlooked (awake : Awake start looks network)
    (overlooked : Overlooked looks network key) : network.standing key = .ready := by
  obtain ⟨unfinished, look, member, rfl, edges, waits, satisfied⟩ := overlooked
  exact (awake.watched look member).2.progress.standing_ready waits unfinished satisfied

theorem wakeable_of_ready (ready : network.standing key = .ready) : network.Wakeable key := by
  obtain ⟨tree, cell, able, -⟩ := standing_eq_ready_iff.1 ready
  refine ⟨?_, ?_, check_of_ready ready drain⟩
  · simp [Network.isActive, able.cell?_eq, able.active]
  · simp [Network.isPropagated, able.cell?_eq, able.waiting]

/-- At the end of a cascade exactly the overlooked keys could be woken up. -/
theorem Awake.wakeable_iff (awake : Awake start looks network)
    (finished : network.agenda.events = []) :
    network.Wakeable key ↔ Overlooked looks network key := by
  constructor
  · rintro ⟨active, unfinished, checked⟩
    refine (awake.asleep_or_overlooked finished active unfinished).resolve_left fun asleep => ?_
    have refused : (network.checkResolved key false).1 = false := by
      simp [checkResolved, asleep.check drain]
    simp [refused] at checked
  · exact fun overlooked => wakeable_of_ready (awake.ready_of_overlooked overlooked)

end Finished

end Network

end ConceptLaws.Propagation
