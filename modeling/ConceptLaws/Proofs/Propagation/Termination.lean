import ConceptLaws.Proofs.Propagation.Easing

/-! Operations come to an end.
The loops and recursions of checks, activation and deactivation are written down once more as runs
that go on for as long as there is something to do. Every network and every key has such a run, with
the outcome that is computed: an open edge is satisfied by each turn of a check that is repeated,
each key is walked once, and a key is deactivated at each level. Only probing is cut off by its
depth, and a cascade by its number of events. -/

namespace ConceptLaws.Propagation

namespace Network

/-! ## Runs of checks -/

/-- The keys whose check leads to the sources of a key, if these may be checked on demand: `visiting`
are the keys whose check led to the key, and none if there is no checking on demand. -/
def chain? (visiting : Option (Std.ExtTreeSet Address)) (key : Address) :
    Option (Std.ExtTreeSet Address) :=
  visiting >>= fun visited =>
    if visited.contains key || maxCheckDepth ≤ visited.size then none
    else some (visited.insert key)

mutual

/-- A check of a key with its answer and the network it leaves behind. -/
inductive Checks (cascade : Cascade) : Option (Std.ExtTreeSet Address) → Network → Address →
    Bool → Network → Prop
  | complete {visiting : Option (Std.ExtTreeSet Address)} {network later : Network} {key : Address}
      (settles : Settles cascade visiting key network .complete later) :
      Checks cascade visiting network key true later
  | stuck {visiting : Option (Std.ExtTreeSet Address)} {network later : Network} {key : Address}
      (settles : Settles cascade visiting key network .stuck later) :
      Checks cascade visiting network key false later
  | ready {visiting : Option (Std.ExtTreeSet Address)} {network later : Network} {key : Address}
      (settles : Settles cascade visiting key network .ready later)
      (top : key.path.parent? = none) :
      Checks cascade visiting network key true (later.complete cascade key)
  | upward {visiting : Option (Std.ExtTreeSet Address)} {network later last : Network}
      {key : Address} {parent : Path} {answer : Bool}
      (settles : Settles cascade visiting key network .ready later)
      (lower : key.path.parent? = some parent)
      (above : Checks cascade none (later.complete cascade key) ⟨key.tree, parent⟩ answer last) :
      Checks cascade visiting network key true last

/-- The retry loop of a check. -/
inductive Settles (cascade : Cascade) : Option (Std.ExtTreeSet Address) → Address → Network →
    Standing → Network → Prop
  | decided {visiting : Option (Std.ExtTreeSet Address)} {key : Address} {network : Network}
      {answer : Standing} (stands : network.standing key = answer)
      (closed : ∀ edges, answer ≠ .open edges) : Settles cascade visiting key network answer network
  | again {visiting : Option (Std.ExtTreeSet Address)} {key : Address}
      {network middle later : Network} {answer : Standing} {edges left : List (Path × Address)}
      {progressed : Bool} (stands : network.standing key = .open edges)
      (pass : network.satisfyDone key.tree edges = (progressed, left, middle))
      (retry : (left.isEmpty || progressed) = true)
      (onward : Settles cascade visiting key middle answer later) :
      Settles cascade visiting key network answer later
  | waits {visiting : Option (Std.ExtTreeSet Address)} {key : Address} {network middle : Network}
      {edges left : List (Path × Address)} {progressed : Bool}
      (stands : network.standing key = .open edges)
      (pass : network.satisfyDone key.tree edges = (progressed, left, middle))
      (idle : (left.isEmpty || progressed) = false) (refused : chain? visiting key = none) :
      Settles cascade visiting key network .stuck middle
  | fails {visiting : Option (Std.ExtTreeSet Address)} {key : Address}
      {network middle later : Network} {edges left : List (Path × Address)} {progressed : Bool}
      {chain : Std.ExtTreeSet Address} (stands : network.standing key = .open edges)
      (pass : network.satisfyDone key.tree edges = (progressed, left, middle))
      (idle : (left.isEmpty || progressed) = false) (allowed : chain? visiting key = some chain)
      (probes : ProbesAll cascade chain key.tree middle left false later) :
      Settles cascade visiting key network .stuck later
  | probed {visiting : Option (Std.ExtTreeSet Address)} {key : Address}
      {network middle last later : Network} {answer : Standing} {edges left : List (Path × Address)}
      {progressed : Bool} {chain : Std.ExtTreeSet Address}
      (stands : network.standing key = .open edges)
      (pass : network.satisfyDone key.tree edges = (progressed, left, middle))
      (idle : (left.isEmpty || progressed) = false) (allowed : chain? visiting key = some chain)
      (probes : ProbesAll cascade chain key.tree middle left true last)
      (onward : Settles cascade visiting key last answer later) :
      Settles cascade visiting key network answer later

/-- Checks on demand, one source after another, until one fails. -/
inductive ProbesAll (cascade : Cascade) : Std.ExtTreeSet Address → Handle → Network →
    List (Path × Address) → Bool → Network → Prop
  | nil {chain : Std.ExtTreeSet Address} {handle : Handle} {network : Network} :
      ProbesAll cascade chain handle network [] true network
  | fails {chain : Std.ExtTreeSet Address} {handle : Handle} {network later : Network} {path : Path}
      {source : Address} {rest : List (Path × Address)}
      (asked : Checks cascade (some chain) network source false later) :
      ProbesAll cascade chain handle network ((path, source) :: rest) false later
  | next {chain : Std.ExtTreeSet Address} {handle : Handle} {network middle later : Network}
      {path : Path} {source : Address} {rest : List (Path × Address)} {answer : Bool}
      (asked : Checks cascade (some chain) network source true middle)
      (onward : ProbesAll cascade chain handle (middle.satisfy ⟨handle, path⟩ source).2 rest answer
        later) :
      ProbesAll cascade chain handle network ((path, source) :: rest) answer later

end

/-- A probe that checks on demand in the way of runs, where that is allowed. -/
inductive Follows (cascade : Cascade) : Option (Std.ExtTreeSet Address) → Option Probe → Prop
  | refused : Follows cascade none none
  | allowed {chain : Std.ExtTreeSet Address} {ask : Probe} (asks : Asks ask)
      (checks : ∀ network key,
        Checks cascade (some chain) network key (ask network key).1 (ask network key).2) :
      Follows cascade (some chain) (some ask)

variable {cascade : Cascade}

theorem probesAll_probeAll {chain : Std.ExtTreeSet Address} {ask : Probe}
    (checks : ∀ network key,
      Checks cascade (some chain) network key (ask network key).1 (ask network key).2)
    (handle : Handle) (edges : List (Path × Address)) (network : Network) :
    ProbesAll cascade chain handle network edges (probeAll ask network handle edges).1
      (probeAll ask network handle edges).2 := by
  induction edges generalizing network with
  | nil => exact .nil
  | cons first rest ih =>
    obtain ⟨path, source⟩ := first
    have asked := checks network source
    unfold probeAll
    generalize ask network source = outcome at asked ⊢
    obtain ⟨succeeded, later⟩ := outcome
    cases succeeded with
    | false => exact .fails asked
    | true => exact .next asked (ih _)

/-- The loop ends before the turns run out that the pending weight allows, with an answer. -/
theorem Follows.settles {visiting : Option (Std.ExtTreeSet Address)} {key : Address}
    {probe : Option Probe} (follows : Follows cascade (chain? visiting key) probe) (turns : Nat)
    (network : Network) (enough : network.pendingWeight < turns) :
    Settles cascade visiting key network (settleKey probe key turns network).1
        (settleKey probe key turns network).2 ∧
      ∀ edges, (settleKey probe key turns network).1 ≠ .open edges := by
  induction turns generalizing network with
  | zero => exact absurd enough (Nat.not_lt_zero _)
  | succ turns ih =>
    unfold settleKey
    cases stands : network.standing key with
    | complete => exact ⟨.decided stands (by simp), by simp⟩
    | stuck => exact ⟨.decided stands (by simp), by simp⟩
    | ready => exact ⟨.decided stands (by simp), by simp⟩
    | «open» edges =>
      have held (edge : Path × Address) (member : edge ∈ edges) :
          network.HasEdge ⟨key.tree, edge.1⟩ edge.2 false := hasEdge_of_open stands member
      have cases := network.satisfyDone_cases key.tree edges
      dsimp only
      generalize pass : network.satisfyDone key.tree edges = outcome at cases ⊢
      obtain ⟨progressed, left, later⟩ := outcome
      rcases cases with ⟨progress, falls⟩ | ⟨idle, same, all⟩
      · obtain rfl : progressed = true := progress
        have onward := ih later (by dsimp only at falls; omega)
        simp only [Bool.or_true, ↓reduceIte]
        exact ⟨.again stands pass (by simp) onward.1, onward.2⟩
      · obtain rfl : progressed = false := idle
        obtain rfl : later = network := same
        obtain rfl : left = edges := all held
        obtain ⟨-, -, -, -, -, -, some_⟩ := standing_eq_open_iff.1 stands
        obtain ⟨first, rest, rfl⟩ := List.exists_cons_of_ne_nil some_
        simp only [List.isEmpty_cons, Bool.or_self, Bool.false_eq_true, ↓reduceIte]
        generalize chained : chain? visiting key = chain at follows
        cases follows with
        | refused => exact ⟨.waits stands pass rfl chained, by simp⟩
        | @allowed chain ask asks checks =>
          have probes := probesAll_probeAll checks key.tree (first :: rest) later
          have falls (succeeded : (probeAll ask later key.tree (first :: rest)).1 = true) :=
            pendingWeight_probeAll asks (held first List.mem_cons_self) succeeded
          dsimp only
          generalize probeAll ask later key.tree (first :: rest) = result at probes falls ⊢
          obtain ⟨succeeded, final⟩ := result
          cases succeeded with
          | false => exact ⟨.fails stands pass rfl chained probes, by simp⟩
          | true =>
            have onward := ih final (by have := falls rfl; dsimp only at this; omega)
            exact ⟨.probed stands pass rfl chained probes onward.1, onward.2⟩

theorem Follows.checks {visiting : Option (Std.ExtTreeSet Address)} {key : Address}
    {probe : Option Probe} (follows : Follows cascade (chain? visiting key) probe)
    {above : Network → Address → Network}
    (upward : ∀ network parent, key.path.parent? = some parent →
      ∃ answer, Checks cascade none network ⟨key.tree, parent⟩ answer
        (above network ⟨key.tree, parent⟩))
    (network : Network) :
    Checks cascade visiting network key (attempt cascade probe above network key).1
      (attempt cascade probe above network key).2 := by
  have settled := follows.settles (network.pendingWeight + 1) network (Nat.lt_succ_self _)
  unfold attempt
  generalize settleKey probe key (network.pendingWeight + 1) network = outcome at settled ⊢
  obtain ⟨answer, later⟩ := outcome
  obtain ⟨settles, decided⟩ := settled
  cases answer with
  | complete => exact .complete settles
  | stuck => exact .stuck settles
  | «open» edges => exact absurd rfl (decided edges)
  | ready =>
    dsimp only
    cases lower : key.path.parent? with
    | none => exact .ready settles lower
    | some parent =>
      obtain ⟨answer, checks⟩ := upward (later.complete cascade key) parent lower
      exact .upward settles lower checks

theorem checks_checkUp (levels : Nat) (network : Network) (key : Address)
    (enough : key.path.length ≤ levels) :
    Checks cascade none network key (checkUp cascade levels network key).1
      (checkUp cascade levels network key).2 := by
  induction levels generalizing network key with
  | zero =>
    have follows : Follows cascade (chain? none key) none := .refused
    refine follows.checks (fun network parent lower => ?_) network
    have root : key.path = [] := List.length_eq_zero_iff.1 (Nat.le_zero.1 enough)
    simp [Path.parent?, root] at lower
  | succ levels ih =>
    have follows : Follows cascade (chain? none key) none := .refused
    refine follows.checks (fun network parent lower => ⟨_, ih network ⟨key.tree, parent⟩ ?_⟩)
      network
    unfold Path.parent? at lower
    split at lower
    · cases lower
    · obtain rfl := Option.some.inj lower
      simp only [List.length_dropLast]
      omega

theorem checks_check (network : Network) (key : Address) :
    Checks cascade none network key (network.check cascade key).1
      (network.check cascade key).2 :=
  checks_checkUp key.path.length network key (Nat.le_refl _)

/-- Probing follows chains of sources up to the depth that is allowed. -/
theorem checks_probeKey (moving : Moving cascade) (depth : Nat)
    (visiting : Std.ExtTreeSet Address) (within : visiting.size + depth = maxCheckDepth)
    (network : Network) (key : Address) :
    Checks cascade (some visiting) network key (probeKey cascade depth visiting network key).1
      (probeKey cascade depth visiting network key).2 := by
  have upward (key : Address) (network : Network) (parent : Path)
      (_ : key.path.parent? = some parent) :
      ∃ answer, Checks cascade none network ⟨key.tree, parent⟩ answer
        ((network.check cascade ⟨key.tree, parent⟩).2) :=
    ⟨_, checks_check network _⟩
  induction depth generalizing visiting network key with
  | zero =>
    have refused : chain? (some visiting) key = none := by
      have full : maxCheckDepth ≤ visiting.size := Nat.le_of_eq within.symm
      simp [chain?, full]
    refine Follows.checks ?_ (upward key) network
    rw [refused]
    exact .refused
  | succ depth ih =>
    unfold probeKey
    dsimp only
    refine Follows.checks ?_ (upward key) network
    have free : ¬maxCheckDepth ≤ visiting.size := by omega
    by_cases member : key ∈ visiting
    · have refused : chain? (some visiting) key = none := by simp [chain?, member]
      rw [refused, if_pos (Std.ExtTreeSet.contains_iff_mem.2 member)]
      exact .refused
    · have allowed : chain? (some visiting) key = some (visiting.insert key) := by
        simp [chain?, member, free]
      rw [allowed, if_neg fun held => member (Std.ExtTreeSet.contains_iff_mem.1 held)]
      refine .allowed (asks_probeKey moving depth (visiting.insert key)) fun later source => ?_
      refine ih (visiting.insert key) ?_ later source
      rw [Std.ExtTreeSet.size_insert,
        if_neg fun held => member (Std.ExtTreeSet.contains_iff_mem.1 held)]
      omega

/-! ## Runs of deactivation -/

/-- The keys that the keys of a sub-tree wait on. -/
def sourcesOf (subtree : List (Path × Cell)) : Std.ExtTreeSet Address :=
  subtree.foldl (fun sources (_, cell) => sources.insertMany cell.waiting.keys) ∅

mutual

/-- A deactivation of a key with its answer and the network it leaves behind. -/
inductive Deactivates : Network → Address → Bool → Network → Prop
  | stale {network : Network} {key : Address} (gone : network.cell? key = none) :
      Deactivates network key false network
  | idle {network : Network} {key : Address} (resting : network.isActive key = false)
      (there : (network.cell? key).isSome) : Deactivates network key true network
  | needed {network : Network} {key : Address} {tree : Tree}
      (live : network.tree? key.tree = some tree) (active : network.isActive key = true)
      (held : network.isNeeded key (tree.subtree key.path) = true) :
      Deactivates network key false network
  | lowered {network later : Network} {key : Address} {tree : Tree}
      (live : network.tree? key.tree = some tree) (active : network.isActive key = true)
      (free : network.isNeeded key (tree.subtree key.path) = false)
      (onward : DeactivatesAll (network.lowerSection key tree)
        (sourcesOf (tree.subtree key.path)).toList later) :
      Deactivates network key true later

/-- Deactivations one after another, as far as nothing is needed any longer. -/
inductive DeactivatesAll : Network → List Address → Network → Prop
  | nil {network : Network} : DeactivatesAll network [] network
  | cons {network middle later : Network} {source : Address} {rest : List Address} {answer : Bool}
      (first : Deactivates network source answer middle)
      (onward : DeactivatesAll middle rest later) : DeactivatesAll network (source :: rest) later

end

variable {network later : Network}

theorem Lowers.activeCount_le (lowers : network.Lowers later) :
    later.activeCount ≤ network.activeCount := by
  rw [activeCount_eq, activeCount_eq]
  exact (List.subperm_of_subset later.nodup_activeKeys fun key active =>
    mem_activeKeys.2 (lowers.isActive (mem_activeKeys.1 active))).length_le

/-- Where a key goes down there are fewer active ones. -/
theorem Lowers.activeCount_lt (lowers : network.Lowers later) {key : Address}
    (active : network.isActive key = true) (down : later.isActive key = false) :
    later.activeCount < network.activeCount := by
  rw [activeCount_eq, activeCount_eq]
  have new : key ∉ later.activeKeys := fun listed => by
    simp [mem_activeKeys.1 listed] at down
  refine (List.subperm_of_subset (List.nodup_cons.2 ⟨new, later.nodup_activeKeys⟩) ?_).length_le
  refine List.cons_subset.2 ⟨mem_activeKeys.2 active, fun other listed => ?_⟩
  exact mem_activeKeys.2 (lowers.isActive (mem_activeKeys.1 listed))

theorem deactivatesAll_foldl (depth : Nat) (sources : List Address) (network : Network)
    (each : ∀ later : Network, later.activeCount ≤ network.activeCount → ∀ source,
      Deactivates later source (later.deactivateWithin depth source).1
        (later.deactivateWithin depth source).2) :
    DeactivatesAll network sources (sources.foldl (fun network source =>
      (network.deactivateWithin depth source).2) network) := by
  induction sources generalizing network with
  | nil => exact .nil
  | cons first rest ih =>
    refine .cons (each network (Nat.le_refl _) first) (ih _ fun later fewer => ?_)
    exact each later (fewer.trans (network.lowers_deactivateWithin depth first).activeCount_le)

theorem deactivates_deactivateWithin (depth : Nat) (network : Network) (key : Address)
    (enough : network.activeCount < depth) :
    Deactivates network key (network.deactivateWithin depth key).1
      (network.deactivateWithin depth key).2 := by
  induction depth generalizing network key with
  | zero => exact absurd enough (Nat.not_lt_zero _)
  | succ depth ih =>
    unfold deactivateWithin
    cases live : network.tree? key.tree with
    | none => exact .stale (by simp [cell?, live])
    | some tree =>
      have here : network.cell? key = tree.cell? key.path := cell?_of_tree? live
      dsimp only
      cases found : tree.cell? key.path with
      | none => exact .stale (here.trans found)
      | some cell =>
        have state : network.isActive key = cell.active := by simp [isActive, here, found]
        dsimp only
        cases active : cell.active with
        | false => exact .idle (state.trans active) (by simp [here, found])
        | true =>
          simp only [Bool.not_true, Bool.false_eq_true, ↓reduceIte]
          cases held : network.isNeeded key (tree.subtree key.path) with
          | true => exact .needed live (state.trans active) held
          | false =>
            simp only [Bool.false_eq_true, ↓reduceIte]
            refine .lowered live (state.trans active) held
              (deactivatesAll_foldl depth _ _ fun later fewer source => ih later source ?_)
            have lowers := lowers_lowerSection live held
            have falls := lowers.activeCount_lt (state.trans active) (by
              unfold isActive
              rw [cell?_lowerSection live, if_pos ⟨rfl, by simp [Path.isWithin]⟩, here, found]
              rfl)
            omega

theorem deactivates_deactivate (network : Network) (key : Address) :
    Deactivates network key (network.deactivate key).1 (network.deactivate key).2 :=
  network.deactivates_deactivateWithin _ key (Nat.lt_succ_self _)

/-! ## Runs of cascades -/

/-- An event of a running cascade is handled. -/
inductive Handles : Network → Event → Network → Prop
  | check {network later : Network} {key : Address} {answer : Bool}
      (checks : Checks id none network key answer later) : Handles network (.check key) later
  | closed {network later : Network} {waiter source : Address}
      (nothing : network.satisfy waiter source = (false, later)) :
      Handles network (.resolve waiter source) later
  | resolve {network middle later : Network} {waiter source : Address} {answer : Bool}
      (newly : network.satisfy waiter source = (true, middle))
      (checks : Checks id none middle waiter answer later) :
      Handles network (.resolve waiter source) later

/-- A cascade that may handle a number of events, with the number that it handles. An event more is
taken off the agenda, and all others are dropped with it. -/
inductive Drains : Nat → Network → Nat → Network → Prop
  | done {limit : Nat} {network : Network} (nothing : network.agenda.pop? = none) :
      Drains limit network 0 network
  | cut {network : Network} {event : Event} {agenda : Agenda}
      (next : network.agenda.pop? = some (event, agenda)) :
      Drains 0 network 0 { ({ network with agenda } : Network).countEvent with agenda := .empty }
  | event {limit handled : Nat} {network middle later : Network} {event : Event} {agenda : Agenda}
      (next : network.agenda.pop? = some (event, agenda))
      (handles : Handles ({ network with agenda } : Network).countEvent event middle)
      (onward : Drains limit middle handled later) :
      Drains (limit + 1) network (handled + 1) later

theorem handles_handle (network : Network) (event : Event) :
    Handles network event (network.handle event) := by
  cases event with
  | check key => exact .check (checks_check network key)
  | resolve waiter source =>
    unfold handle resolveEdge
    dsimp only
    generalize satisfied : network.satisfy waiter source = outcome
    obtain ⟨newly, later⟩ := outcome
    cases newly with
    | false => exact .closed satisfied
    | true => exact .resolve satisfied (checks_check later waiter)

theorem Drains.handled_le {limit handled : Nat} (drains : Drains limit network handled later) :
    handled ≤ limit := by
  induction drains with
  | done => exact Nat.zero_le _
  | cut => exact Nat.le_refl _
  | event _ _ _ ih => exact Nat.succ_le_succ ih

theorem drains_drainSteps (steps : Nat) (network : Network) :
    ∃ handled, Drains steps network handled (network.drainSteps steps) := by
  induction steps generalizing network with
  | zero =>
    unfold drainSteps
    cases next : network.agenda.pop? with
    | none => exact ⟨0, .done next⟩
    | some pair => exact ⟨0, .cut next⟩
  | succ steps ih =>
    unfold drainSteps
    cases next : network.agenda.pop? with
    | none => exact ⟨0, .done next⟩
    | some pair =>
      obtain ⟨event, agenda⟩ := pair
      obtain ⟨handled, drains⟩ :=
        ih ((({ network with agenda } : Network).countEvent).handle event)
      exact ⟨handled + 1, .event next (handles_handle _ event) drains⟩

/-! ## All operations -/

theorem checks_checkResolved (network : Network) (key : Address) (probe : Bool) :
    ∃ checked, Checks drain (if probe then some ∅ else none) network key
      (network.checkResolved key probe).1 checked ∧
        (network.checkResolved key probe).2 = checked.drain := by
  cases probe with
  | false => exact ⟨_, checks_check network key, rfl⟩
  | true => exact ⟨_, checks_probeKey moving_drain maxCheckDepth ∅ (by simp) network key, rfl⟩

/-- Whatever is there, every check with its retries and its probing comes to an end, every walk of
an activation does, and every deactivation; a cascade handles no more events than it may; and when
an operation that runs a cascade returns, the agenda is empty. -/
theorem operations_end (network : Network) :
    (∀ key, ∃ walk, Walks ⟨network, [key], ∅, []⟩ walk ∧
      network.activateFrom key =
        walk.network.updateAgenda fun agenda => agenda.pushChecks walk.found) ∧
    (∀ key, Deactivates network key (network.deactivate key).1 (network.deactivate key).2) ∧
    (∀ key probe, ∃ checked, Checks drain (if probe then some ∅ else none) network key
      (network.checkResolved key probe).1 checked ∧
        (network.checkResolved key probe).2 = checked.drain) ∧
    (∃ handled ≤ network.maxSteps, Drains network.maxSteps network handled network.drain) ∧
    (∀ waiter source callback, (network.wait waiter source callback).2.agenda.events = []) ∧
    (∀ waiter source, (network.resolve waiter source).2.agenda.events = []) ∧
    (∀ key probe, (network.checkResolved key probe).2.agenda.events = []) ∧
    (∀ key, (network.propagate key).agenda.events = []) ∧
    (∀ key, (network.activate key).agenda.events = []) ∧
    network.settle.agenda.events = [] ∧
    (∀ key recursive, network.know key recursive = network ∨
      (network.know key recursive).agenda.events = []) ∧
    ∀ variableTable name target, network.bind variableTable name target = network ∨
      (network.bind variableTable name target).agenda.events = [] := by
  obtain ⟨handled, drains⟩ := drains_drainSteps network.maxSteps network
  refine ⟨fun key => ⟨_, network.walks_activateFrom key, rfl⟩, network.deactivates_deactivate,
    network.checks_checkResolved, ⟨handled, drains.handled_le, drains⟩,
    fun _ _ _ => events_drain _, fun _ _ => events_drain _, fun _ _ => events_drain _,
    fun _ => events_drain _, fun _ => events_drain _, events_drain _, fun key recursive => ?_,
    fun variableTable name target => ?_⟩
  · unfold know setKnown
    split
    · exact Or.inl rfl
    · exact Or.inr (events_drain _)
  · unfold bind
    rw [bindVariable_eq]
    split
    · exact Or.inr (events_drain _)
    · exact Or.inl rfl

end Network

end ConceptLaws.Propagation
