import ConceptLaws.Propagation.Cascade
import Mathlib.Data.List.Sort

/-! What becomes of events.
Events leave the agenda in the order in which they were accepted, and none is lost or doubled on the
way. The checks that are remembered are those that wait, each once, so that a check which is refused
is one that is still to come. -/

namespace ConceptLaws.Propagation

namespace Agenda

/-- The keys that count as waiting for a check do wait for one. -/
def Neat (agenda : Agenda) : Prop := ∀ key ∈ agenda.checks, Event.check key ∈ agenda.events

/-- Events were only added. -/
structure Extends (agenda later : Agenda) : Prop where
  events : ∀ event ∈ agenda.events, event ∈ later.events
  neat : agenda.Neat → later.Neat

theorem neat_empty : empty.Neat := fun _ member => by simp [empty] at member

theorem extends_refl (agenda : Agenda) : agenda.Extends agenda := ⟨fun _ => id, id⟩

theorem Extends.trans {first second third : Agenda} (earlier : first.Extends second)
    (later : second.Extends third) : first.Extends third :=
  ⟨fun event member => later.events event (earlier.events event member), later.neat ∘ earlier.neat⟩

theorem extends_pushResolve (agenda : Agenda) (waiter source : Address) :
    agenda.Extends (agenda.pushResolve waiter source) :=
  ⟨fun _ => List.mem_append_left _,
    fun neat key member => List.mem_append_left _ (neat key member)⟩

theorem extends_pushCheck (agenda : Agenda) (key : Address) :
    agenda.Extends (agenda.pushCheck key) := by
  unfold pushCheck
  split
  · exact agenda.extends_refl
  · refine ⟨fun _ => List.mem_append_left _, fun neat other member => ?_⟩
    rcases Std.ExtTreeSet.mem_insert.1 member with same | old
    · obtain rfl := Std.LawfulEqOrd.eq_of_compare same
      exact List.mem_append_right _ (List.mem_singleton_self _)
    · exact List.mem_append_left _ (neat other old)

theorem extends_foldl_pushCheck (keys : List Address) (agenda : Agenda) :
    agenda.Extends (keys.foldl pushCheck agenda) := by
  induction keys generalizing agenda with
  | nil => exact agenda.extends_refl
  | cons first rest ih => exact (agenda.extends_pushCheck first).trans (ih _)

theorem extends_pushChecks (agenda : Agenda) (keys : List Address) :
    agenda.Extends (agenda.pushChecks keys) :=
  extends_foldl_pushCheck _ agenda

theorem Neat.check_mem_pushCheck {agenda : Agenda} (neat : agenda.Neat) (key : Address) :
    Event.check key ∈ (agenda.pushCheck key).events := by
  unfold pushCheck
  split
  · rename_i waiting
    exact neat key (Std.ExtTreeSet.mem_iff_contains.2 waiting)
  · exact List.mem_append_right _ (List.mem_singleton_self _)

theorem Neat.check_mem_foldl_pushCheck {agenda : Agenda} (neat : agenda.Neat) {keys : List Address}
    {key : Address} (member : key ∈ keys) :
    Event.check key ∈ (keys.foldl pushCheck agenda).events := by
  induction keys generalizing agenda with
  | nil => simp at member
  | cons first rest ih =>
    rcases List.mem_cons.1 member with rfl | later
    · exact (extends_foldl_pushCheck rest _).events _ (neat.check_mem_pushCheck key)
    · exact ih ((agenda.extends_pushCheck first).neat neat) later

theorem Neat.check_mem_pushChecks {agenda : Agenda} (neat : agenda.Neat) {keys : List Address}
    {key : Address} (member : key ∈ keys) : Event.check key ∈ (agenda.pushChecks keys).events :=
  neat.check_mem_foldl_pushCheck (List.mem_mergeSort.2 member)

theorem mem_foldl_pushCheck {agenda : Agenda} {keys : List Address} {event : Event}
    (member : event ∈ (keys.foldl pushCheck agenda).events) :
    event ∈ agenda.events ∨ ∃ key ∈ keys, event = .check key := by
  induction keys generalizing agenda with
  | nil => exact Or.inl member
  | cons first rest ih =>
    rcases ih member with before | ⟨key, later, same⟩
    · unfold pushCheck at before
      split at before
      · exact Or.inl before
      · rcases List.mem_append.1 before with old | new
        · exact Or.inl old
        · exact Or.inr ⟨first, List.mem_cons_self .., List.mem_singleton.1 new⟩
    · exact Or.inr ⟨key, List.mem_cons_of_mem first later, same⟩

/-- Keys that come in order are put on the agenda one after the other. -/
theorem pushChecks_of_sorted {agenda : Agenda} {keys : List Address}
    (sorted : keys.Pairwise fun left right => (compare left right).isLE = true) :
    agenda.pushChecks keys = keys.foldl pushCheck agenda := by
  unfold pushChecks
  rw [List.mergeSort_of_pairwise sorted]

theorem extends_foldl_pushResolve (waiters : List Address) (key : Address) (agenda : Agenda) :
    agenda.Extends (waiters.foldl (fun agenda waiter => agenda.pushResolve waiter key) agenda) := by
  induction waiters generalizing agenda with
  | nil => exact agenda.extends_refl
  | cons first rest ih => exact (agenda.extends_pushResolve first key).trans (ih _)

/-- What is left when an event is taken. -/
theorem eq_or_mem_of_pop? {agenda rest : Agenda} {event : Event}
    (taken : agenda.pop? = some (event, rest)) :
    (agenda.Neat → rest.Neat) ∧ ∀ other ∈ agenda.events, other = event ∨ other ∈ rest.events := by
  unfold pop? at taken
  split at taken
  · simp at taken
  · rename_i key others listed
    obtain ⟨rfl, rfl⟩ := Prod.mk.inj (Option.some.inj taken)
    refine ⟨fun neat other member => ?_, fun other member => by simpa [listed] using member⟩
    obtain ⟨different, waiting⟩ := Std.ExtTreeSet.mem_erase.1 member
    have still := neat other waiting
    rw [listed, List.mem_cons] at still
    refine still.resolve_left fun same => different ?_
    rw [Event.check.inj same, Std.compare_self]
  · rename_i first others notCheck listed
    obtain ⟨rfl, rfl⟩ := Prod.mk.inj (Option.some.inj taken)
    refine ⟨fun neat other member => ?_, fun other member => by simpa [listed] using member⟩
    have still := neat other member
    rw [listed, List.mem_cons] at still
    exact still.resolve_left fun same => notCheck other same.symm

theorem events_of_pop?_eq_none {agenda : Agenda} (nothing : agenda.pop? = none) :
    agenda.events = [] := by
  unfold pop? at nothing
  split at nothing
  · rename_i listed
    exact listed
  · simp at nothing
  · simp at nothing

theorem Neat.eq_empty {agenda : Agenda} (neat : agenda.Neat) (nothing : agenda.events = []) :
    agenda = .empty := by
  obtain ⟨events, checks⟩ := agenda
  obtain rfl : events = [] := nothing
  have none_ : checks = ∅ := by
    refine Std.ExtTreeSet.eq_empty_iff_forall_not_mem.2 fun key member => ?_
    simpa using neat key member
  rw [none_]
  rfl

theorem pop?_eq_none {agenda : Agenda} (nothing : agenda.events = []) : agenda.pop? = none := by
  unfold pop?
  rw [nothing]

/-- What came first is popped. -/
theorem exists_pop? {agenda : Agenda} {event : Event} {rest : List Event}
    (waiting : agenda.events = event :: rest) :
    ∃ later, agenda.pop? = some (event, later) ∧ later.events = rest := by
  unfold pop?
  rw [waiting]
  cases event with
  | resolve waiter source => exact ⟨_, rfl, rfl⟩
  | check key => exact ⟨_, rfl, rfl⟩

/-! ## The remembered checks -/

/-- The remembered checks are those that wait, and each waits once. -/
structure Exact (agenda : Agenda) : Prop where
  remembered : ∀ key, key ∈ agenda.checks ↔ Event.check key ∈ agenda.events
  once : ∀ key, agenda.events.count (.check key) ≤ 1

theorem exact_empty : empty.Exact where
  remembered := by simp [empty]
  once := by simp [empty]

theorem Exact.neat {agenda : Agenda} (exact_ : agenda.Exact) : agenda.Neat :=
  fun key => (exact_.remembered key).1

theorem Exact.pushCheck_of_mem {agenda : Agenda} (exact_ : agenda.Exact) {key : Address}
    (waiting : Event.check key ∈ agenda.events) : agenda.pushCheck key = agenda :=
  if_pos (Std.ExtTreeSet.mem_iff_contains.1 ((exact_.remembered key).2 waiting))

theorem Exact.pushCheck_of_not_mem {agenda : Agenda} (exact_ : agenda.Exact) {key : Address}
    (absent : Event.check key ∉ agenda.events) :
    agenda.pushCheck key = ⟨agenda.events ++ [.check key], agenda.checks.insert key⟩ :=
  if_neg fun known => absent ((exact_.remembered key).1 (Std.ExtTreeSet.mem_iff_contains.2 known))

theorem Exact.pushResolve {agenda : Agenda} (exact_ : agenda.Exact) (waiter source : Address) :
    (agenda.pushResolve waiter source).Exact where
  remembered key := by
    rw [Agenda.pushResolve, List.mem_append, exact_.remembered]
    simp
  once key := by
    rw [Agenda.pushResolve, List.count_append, List.count_singleton]
    simpa using exact_.once key

theorem Exact.pushCheck {agenda : Agenda} (exact_ : agenda.Exact) (key : Address) :
    (agenda.pushCheck key).Exact := by
  by_cases waiting : Event.check key ∈ agenda.events
  · rwa [exact_.pushCheck_of_mem waiting]
  · rw [exact_.pushCheck_of_not_mem waiting]
    constructor
    · intro other
      rw [Std.ExtTreeSet.mem_insert, Std.compare_eq_iff_eq, exact_.remembered, List.mem_append,
        List.mem_singleton, Event.check.injEq, eq_comm, or_comm]
    · intro other
      rw [List.count_append, List.count_singleton]
      by_cases same : other = key
      · rw [same, List.count_eq_zero.2 waiting]
        simp
      · simpa [Ne.symm same] using exact_.once other

theorem Exact.foldl_pushCheck {agenda : Agenda} (exact_ : agenda.Exact) (keys : List Address) :
    (keys.foldl Agenda.pushCheck agenda).Exact := by
  induction keys generalizing agenda with
  | nil => exact exact_
  | cons first rest ih => exact ih (exact_.pushCheck first)

/-- With the only check of a key the key is forgotten. -/
theorem Exact.of_pop? {agenda later : Agenda} (exact_ : agenda.Exact) {event : Event}
    (taken : agenda.pop? = some (event, later)) : later.Exact := by
  unfold pop? at taken
  split at taken
  · simp at taken
  · rename_i key others listed
    obtain ⟨rfl, rfl⟩ := Prod.mk.inj (Option.some.inj taken)
    have once := exact_.once
    have remembered := exact_.remembered
    rw [listed] at once remembered
    -- the check waited once only, so that its key may be forgotten
    have gone : Event.check key ∉ others := by
      have atMost := once key
      rw [List.count_cons_self] at atMost
      exact List.count_eq_zero.1 (by omega)
    constructor
    · intro other
      rw [Std.ExtTreeSet.mem_erase, remembered, List.mem_cons, Event.check.injEq,
        ne_eq, Std.compare_eq_iff_eq]
      constructor
      · rintro ⟨different, same | waiting⟩
        · exact (different same.symm).elim
        · exact waiting
      · intro waiting
        refine ⟨?_, Or.inr waiting⟩
        rintro rfl
        exact gone waiting
    · intro other
      exact Nat.le_trans List.count_le_count_cons (once other)
  · rename_i first others notCheck listed
    obtain ⟨rfl, rfl⟩ := Prod.mk.inj (Option.some.inj taken)
    have once := exact_.once
    have remembered := exact_.remembered
    rw [listed] at once remembered
    constructor
    · intro other
      rw [remembered, List.mem_cons, or_iff_right (fun same => notCheck other same.symm)]
    · intro other
      exact Nat.le_trans List.count_le_count_cons (once other)

/-- The checks of the keys that do not wait yet, each where its key comes first. -/
def newChecks (waiting : List Event) : List Address → List Event
  | [] => []
  | key :: rest =>
    if .check key ∈ waiting then newChecks waiting rest
    else .check key :: newChecks (waiting ++ [.check key]) rest

theorem Exact.events_foldl_pushCheck {agenda : Agenda} (exact_ : agenda.Exact)
    (keys : List Address) : (keys.foldl Agenda.pushCheck agenda).events =
      agenda.events ++ newChecks agenda.events keys := by
  induction keys generalizing agenda with
  | nil => exact (List.append_nil _).symm
  | cons first rest ih =>
    rw [List.foldl_cons, ih (exact_.pushCheck first), newChecks]
    by_cases waiting : Event.check first ∈ agenda.events
    · rw [exact_.pushCheck_of_mem waiting, if_pos waiting]
    · rw [exact_.pushCheck_of_not_mem waiting, if_neg waiting, List.append_assoc]
      rfl

theorem resolve_not_mem_newChecks (waiter source : Address) (waiting : List Event)
    (keys : List Address) : Event.resolve waiter source ∉ newChecks waiting keys := by
  induction keys generalizing waiting with
  | nil => exact List.not_mem_nil
  | cons first rest ih =>
    unfold newChecks
    split
    · exact ih waiting
    · simpa using ih _

end Agenda

/-- What can be done with an agenda. -/
inductive AgendaCall where
  | pushResolve (waiter source : Address)
  | pushCheck (key : Address)
  | pushChecks (keys : List Address)
  | pop
  | clear
deriving DecidableEq

namespace AgendaCall

/-- The call pushes a check of the key. -/
def Checks (key : Address) : AgendaCall → Prop
  | pushCheck other => other = key
  | pushChecks keys => key ∈ keys
  | _ => False

end AgendaCall

namespace Agenda

def perform (agenda : Agenda) : AgendaCall → Agenda
  | .pushResolve waiter source => agenda.pushResolve waiter source
  | .pushCheck key => agenda.pushCheck key
  | .pushChecks keys => agenda.pushChecks keys
  | .pop => (agenda.pop?.map Prod.snd).getD agenda
  | .clear => .empty

/-- The events that a call adds: a resolve always, a check if no check of its key waits, several
checks in the order of their keys. -/
def accepted (agenda : Agenda) : AgendaCall → List Event
  | .pushResolve waiter source => [.resolve waiter source]
  | .pushCheck key => newChecks agenda.events [key]
  | .pushChecks keys =>
    newChecks agenda.events (keys.mergeSort fun left right => (compare left right).isLE)
  | _ => []

/-- The event that a call pops. -/
def popped (agenda : Agenda) : AgendaCall → List Event
  | .pop => (agenda.pop?.map Prod.fst).toList
  | _ => []

/-- The events that a call clears away. -/
def cleared (agenda : Agenda) : AgendaCall → List Event
  | .clear => agenda.events
  | _ => []

/-- The events that leave at a call. -/
def departed (agenda : Agenda) (call : AgendaCall) : List Event :=
  agenda.popped call ++ agenda.cleared call

def performAll (agenda : Agenda) (calls : List AgendaCall) : Agenda := calls.foldl perform agenda

/-- What is observed at calls that are made one after the other. -/
def observed (watch : Agenda → AgendaCall → List Event) : Agenda → List AgendaCall → List Event
  | _, [] => []
  | agenda, call :: rest => watch agenda call ++ observed watch (agenda.perform call) rest

theorem Exact.perform {agenda : Agenda} (exact_ : agenda.Exact) (call : AgendaCall) :
    (agenda.perform call).Exact := by
  cases call with
  | pushResolve waiter source => exact exact_.pushResolve waiter source
  | pushCheck key => exact exact_.pushCheck key
  | pushChecks keys => exact exact_.foldl_pushCheck _
  | pop =>
    cases waiting : agenda.events with
    | nil => simpa [Agenda.perform, pop?_eq_none waiting] using exact_
    | cons event rest =>
      obtain ⟨later, taken, -⟩ := exists_pop? waiting
      simpa [Agenda.perform, taken] using exact_.of_pop? taken
  | clear => exact exact_empty

theorem Exact.performAll {agenda : Agenda} (exact_ : agenda.Exact) (calls : List AgendaCall) :
    (agenda.performAll calls).Exact := by
  induction calls generalizing agenda with
  | nil => exact exact_
  | cons call rest ih => exact ih (exact_.perform call)

/-! ## The order of events -/

/-- What waited and what is accepted leaves or waits afterwards, in this order. -/
theorem Exact.events_perform {agenda : Agenda} (exact_ : agenda.Exact) (call : AgendaCall) :
    agenda.events ++ agenda.accepted call =
      agenda.departed call ++ (agenda.perform call).events := by
  cases call with
  | pushResolve waiter source => rfl
  | pushCheck key => exact (exact_.events_foldl_pushCheck [key]).symm
  | pushChecks keys => exact (exact_.events_foldl_pushCheck _).symm
  | pop =>
    cases waiting : agenda.events with
    | nil =>
      simp [accepted, departed, popped, cleared, Agenda.perform, pop?_eq_none waiting, waiting]
    | cons event rest =>
      obtain ⟨later, taken, left⟩ := exists_pop? waiting
      simp [accepted, departed, popped, cleared, Agenda.perform, taken, left]
  | clear => simp [accepted, departed, popped, cleared, Agenda.perform, empty]

theorem Exact.events_performAll {agenda : Agenda} (exact_ : agenda.Exact)
    (calls : List AgendaCall) : agenda.events ++ observed accepted agenda calls =
      observed departed agenda calls ++ (agenda.performAll calls).events := by
  induction calls generalizing agenda with
  | nil => exact List.append_nil _
  | cons call rest ih =>
    calc agenda.events ++ (agenda.accepted call ++ observed accepted (agenda.perform call) rest)
      _ = agenda.departed call ++ ((agenda.perform call).events ++
          observed accepted (agenda.perform call) rest) := by
        rw [← List.append_assoc, exact_.events_perform, List.append_assoc]
      _ = agenda.departed call ++ (observed departed (agenda.perform call) rest ++
          ((agenda.perform call).performAll rest).events) := by rw [ih (exact_.perform call)]
      _ = _ := (List.append_assoc ..).symm

/-- As long as nothing is cleared, events leave by being popped. -/
theorem observed_departed {calls : List AgendaCall} (kept : .clear ∉ calls) (agenda : Agenda) :
    observed departed agenda calls = observed popped agenda calls := by
  induction calls generalizing agenda with
  | nil => rfl
  | cons call rest ih =>
    obtain ⟨different, later⟩ := not_or.1 (mt List.mem_cons.2 kept)
    have nothing : agenda.cleared call = [] := by
      cases call with
      | clear => exact (different rfl).elim
      | _ => rfl
    rw [observed, observed, departed, nothing, List.append_nil, ih later]

/-- All that waits can be popped. -/
theorem Exact.drained {agenda : Agenda} (exact_ : agenda.Exact) :
    observed popped agenda (List.replicate agenda.size .pop) = agenda.events ∧
      agenda.performAll (List.replicate agenda.size .pop) = .empty := by
  unfold size
  induction waiting : agenda.events generalizing agenda with
  | nil => exact ⟨rfl, exact_.neat.eq_empty waiting⟩
  | cons event rest ih =>
    obtain ⟨later, taken, left⟩ := exists_pop? waiting
    obtain ⟨all, nothing⟩ := ih (exact_.of_pop? taken) left
    have step : agenda.perform .pop = later := by simp [Agenda.perform, taken]
    rw [List.length_cons, List.replicate_succ]
    constructor
    · rw [observed, step, all]
      simp [popped, taken]
    · rwa [Agenda.performAll, List.foldl_cons, step]

/-! ## How often events leave -/

theorem Exact.count_performAll {agenda : Agenda} (exact_ : agenda.Exact) (event : Event)
    (calls : List AgendaCall) :
    agenda.events.count event + (observed accepted agenda calls).count event =
      (observed departed agenda calls).count event +
        (agenda.performAll calls).events.count event := by
  rw [← List.count_append, ← List.count_append, exact_.events_performAll]

theorem count_departed (event : Event) (calls : List AgendaCall) (agenda : Agenda) :
    (observed departed agenda calls).count event =
      (observed popped agenda calls).count event + (observed cleared agenda calls).count event := by
  induction calls generalizing agenda with
  | nil => rfl
  | cons call rest ih =>
    simp only [observed, departed, List.count_append, ih]
    omega

/-- Each call that pushes a resolve adds it once, and no other call does. -/
theorem count_accepted_resolve (waiter source : Address) (calls : List AgendaCall)
    (agenda : Agenda) : (observed accepted agenda calls).count (.resolve waiter source) =
      calls.count (.pushResolve waiter source) := by
  induction calls generalizing agenda with
  | nil => rfl
  | cons call rest ih =>
    rw [observed, List.count_append, ih, List.count_cons, Nat.add_comm]
    refine congrArg _ ?_
    cases call with
    | pushResolve otherWaiter otherSource =>
      rw [accepted, List.count_singleton]
      simp
    | pushCheck key => exact List.count_eq_zero.2 (resolve_not_mem_newChecks _ _ _ _)
    | pushChecks keys => exact List.count_eq_zero.2 (resolve_not_mem_newChecks _ _ _ _)
    | pop => rfl
    | clear => rfl

/-- While a call adds events, none leaves. -/
theorem departed_eq_nil {agenda : Agenda} {call : AgendaCall} {event : Event}
    (added : event ∈ agenda.accepted call) : agenda.departed call = [] := by
  cases call with
  | pop => exact (List.not_mem_nil added).elim
  | clear => exact (List.not_mem_nil added).elim
  | _ => rfl

/-- A check that is accepted did not wait before. -/
theorem Exact.count_of_accepted {agenda : Agenda} (exact_ : agenda.Exact) {call : AgendaCall}
    {key : Address} (added : .check key ∈ agenda.accepted call) :
    agenda.events.count (.check key) = 0 := by
  -- otherwise it would wait twice afterwards
  have after := exact_.events_perform call
  rw [departed_eq_nil added, List.nil_append] at after
  have atMost := (exact_.perform call).once key
  rw [← after, List.count_append] at atMost
  have := List.count_pos_iff.2 added
  omega

/-- After a check is pushed, accepted or not, it waits. -/
theorem Exact.check_mem_perform {agenda : Agenda} (exact_ : agenda.Exact) {call : AgendaCall}
    {key : Address} (pushed : call.Checks key) : .check key ∈ (agenda.perform call).events := by
  cases call with
  | pushCheck other =>
    obtain rfl : other = key := pushed
    exact exact_.neat.check_mem_pushCheck other
  | pushChecks keys => exact exact_.neat.check_mem_pushChecks pushed
  | _ => exact pushed.elim

/-- A check that waits is popped once until it is accepted again. -/
theorem Exact.count_popped {agenda : Agenda} (exact_ : agenda.Exact) {key : Address}
    (waiting : .check key ∈ agenda.events) {calls : List AgendaCall} (kept : .clear ∉ calls)
    (refused : .check key ∉ observed accepted agenda calls) :
    (observed popped agenda calls).count (.check key) +
      (agenda.performAll calls).events.count (.check key) = 1 := by
  have all := exact_.count_performAll (.check key) calls
  rw [List.count_eq_zero.2 refused, observed_departed kept] at all
  have := exact_.once key
  have := List.count_pos_iff.2 waiting
  omega

/-! ## Nothing is lost and nothing comes twice -/

/-- Nothing is lost and nothing comes twice, whatever is called next. -/
structure Lossless (agenda : Agenda) : Prop extends agenda.Exact where
  /-- Popping gives all that waits. -/
  drained : observed popped agenda (List.replicate agenda.size .pop) = agenda.events ∧
    agenda.performAll (List.replicate agenda.size .pop) = .empty
  /-- Events leave in the order in which they were accepted. A resolve that is pushed next comes
  right behind what waits now. -/
  inOrder : ∀ later : List AgendaCall, .clear ∉ later →
    agenda.events ++ observed accepted agenda later =
      observed popped agenda later ++ (agenda.performAll later).events
  /-- Of the checks of a key one is popped after each push, before the next push that is accepted
  and before nothing waits. -/
  checked : ∀ (key : Address) (push : AgendaCall), push.Checks key →
    ∀ later : List AgendaCall, .clear ∉ later →
      .check key ∉ observed accepted (agenda.perform push) later →
        (observed popped (agenda.perform push) later).count (.check key) +
            ((agenda.perform push).performAll later).events.count (.check key) = 1 ∧
          (∀ next, .check key ∈ ((agenda.perform push).performAll later).accepted next →
            (observed popped (agenda.perform push) later).count (.check key) = 1) ∧
          (((agenda.perform push).performAll later).events = [] →
            (observed popped (agenda.perform push) later).count (.check key) = 1)

theorem Exact.lossless {agenda : Agenda} (exact_ : agenda.Exact) : agenda.Lossless where
  toExact := exact_
  drained := exact_.drained
  inOrder later kept := by rw [exact_.events_performAll, observed_departed kept]
  checked key push pushed later kept refused := by
    have exactThen := exact_.perform push
    have once := exactThen.count_popped (exact_.check_mem_perform pushed) kept refused
    refine ⟨once, fun next added => ?_, fun nothing => ?_⟩
    · rwa [(exactThen.performAll later).count_of_accepted added] at once
    · rwa [nothing] at once

/-- Whatever was called before, the remembered checks are those that wait, events leave in the
order in which they were accepted, all the events that were accepted are popped, cleared away or
still wait, and so is each resolve as often as it was pushed. -/
theorem lossless_performAll (calls : List AgendaCall) :
    (empty.performAll calls).Lossless ∧
      observed accepted empty calls =
        observed departed empty calls ++ (empty.performAll calls).events ∧
      ∀ waiter source, calls.count (.pushResolve waiter source) =
        (observed popped empty calls).count (.resolve waiter source) +
          (observed cleared empty calls).count (.resolve waiter source) +
            (empty.performAll calls).events.count (.resolve waiter source) := by
  refine ⟨(exact_empty.performAll calls).lossless, exact_empty.events_performAll calls, ?_⟩
  intro waiter source
  rw [← count_accepted_resolve waiter source calls empty, ← count_departed,
    ← exact_empty.count_performAll]
  simp [empty]

end Agenda

/-! ## Checks sorted by insertion

The agenda takes checks in the order of their keys. Sorting by insertion gives the same order by a
structural recursion, so that activations and settlings of closed networks compute. -/

/-- The order in which the agenda takes checks. -/
def Address.Precedes (left right : Address) : Prop := (compare left right).isLE = true

instance : DecidableRel Address.Precedes :=
  fun left right => inferInstanceAs (Decidable ((compare left right).isLE = true))

instance : Std.Total Address.Precedes where
  total left right := by
    have swapped : compare right left = (compare left right).swap := Std.OrientedCmp.eq_swap
    simp only [Address.Precedes, swapped]
    cases compare left right <;> simp

instance : IsTrans Address Address.Precedes where
  trans _ _ _ := Std.TransCmp.isLE_trans

instance : Std.Antisymm Address.Precedes where
  antisymm _ _ before after := Std.LawfulEqCmp.eq_of_compare
    (Std.OrientedCmp.isLE_antisymm before after)

theorem Agenda.pushChecks_eq (agenda : Agenda) (keys : List Address) :
    agenda.pushChecks keys =
      (keys.insertionSort Address.Precedes).foldl pushCheck agenda := by
  have order : (fun left right : Address => decide (left.Precedes right)) =
      fun left right => (compare left right).isLE := by
    funext left right
    exact Bool.decide_eq_true
  rw [← List.mergeSort_eq_insertionSort, order]
  rfl

namespace Network

theorem activateFrom_eq (network : Network) (key : Address) : network.activateFrom key =
    let walk := walkActivation (network.edgeCount + 1) ⟨network, [key], ∅, []⟩
    walk.network.updateAgenda fun agenda =>
      (walk.found.insertionSort Address.Precedes).foldl Agenda.pushCheck agenda := by
  simp only [activateFrom, Agenda.pushChecks_eq]

/-- Activates a key with all it depends on, by insertion. -/
theorem activate_eq (network : Network) (key : Address) : network.activate key =
    let walk := walkActivation (network.edgeCount + 1) ⟨network, [key], ∅, []⟩
    (walk.network.updateAgenda fun agenda =>
      (walk.found.insertionSort Address.Precedes).foldl Agenda.pushCheck agenda).drain := by
  simp only [activate, activateFrom_eq]

theorem settle_eq (network : Network) : network.settle =
    (network.updateAgenda fun agenda =>
      (network.unsettled.insertionSort Address.Precedes).foldl Agenda.pushCheck agenda).drain := by
  simp only [settle, Agenda.pushChecks_eq]

end Network

end ConceptLaws.Propagation
