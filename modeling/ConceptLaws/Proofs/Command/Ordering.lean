import ConceptLaws.Proofs.Command.Assembly

/-! The order of commands.
Commands that name no variables and bind none are executed in the order of what they read and write,
whatever is activated, settled and checked afterwards, and in whatever order. Commands that read
what they write themselves, directly or through others, are never executed. -/

namespace ConceptLaws.Command

open Propagation Propagation.Network

/-! ## Requests -/

/-- What is asked of a network once its commands are compiled. -/
inductive Request where
  | activate (key : Address)
  | settle
  | checkResolved (key : Address) (probe : Bool)

namespace Request

def perform (network : Network) : Request → Network
  | activate key => network.activate key
  | settle => network.settle
  | checkResolved key probe => (network.checkResolved key probe).2

def looks (network : Network) : Request → List Look
  | activate key => drainLooks (network.activateFrom key)
  | settle => drainLooks (network.updateAgenda fun agenda => agenda.pushChecks network.unsettled)
  | checkResolved key false =>
    checkLooks drain network key ++ drainLooks (network.check drain key).2
  | checkResolved key true => probeKeyLooks drain maxCheckDepth ∅ network key ++
      drainLooks (probeKey drain maxCheckDepth ∅ network key).2

theorem course (request : Request) {network : Network} (sound : network.Sound) :
    Course network (request.looks network) (request.perform network) := by
  cases request with
  | activate key =>
    have tame := sound.tame_activateFrom key
    exact .tame tame (sound.tame tame).course_drain
  | settle =>
    have tame := sound.tame_pushChecks network.unsettled
    exact .tame tame (sound.tame tame).course_drain
  | checkResolved key probe =>
    cases probe with
    | false =>
      have run := (sincere_check orderly_drain).run network key sound
      exact .run run (run.advances sound).sound.course_drain
    | true =>
      have run := (sincere_probeKey orderly_drain maxCheckDepth ∅).run network key sound
      exact .run run (run.advances sound).sound.course_drain

end Request

def performAll (network : Network) (requests : List Request) : Network :=
  requests.foldl Request.perform network

def allLooks : Network → List Request → List Look
  | _, [] => []
  | network, first :: rest => first.looks network ++ allLooks (first.perform network) rest

theorem course_performAll (requests : List Request) {network : Network} (sound : network.Sound) :
    Course network (allLooks network requests) (performAll network requests) := by
  induction requests generalizing network with
  | nil => exact .refl network
  | cons first rest ih =>
    have course := first.course sound
    exact course.trans (ih (course.advances sound).sound)

/-! ## Assembled networks -/

/-- Compiles commands in order, each for its owner. -/
def compileAll (context : Context) (network : Network) (commands : List (EntityId × String)) :
    Network :=
  commands.foldl (fun network command => (compileSource context network command.1 command.2).2)
    network

theorem Idle.compileAll {context : Context} {network : Network} (idle : Idle network)
    (planted : Planted context.trees network) {commands : List (EntityId × String)}
    (plain : ∀ command ∈ commands, isPlainSource command.2 = true) :
    Idle (compileAll context network commands) := by
  unfold Command.compileAll
  induction commands generalizing network with
  | nil => exact idle
  | cons first rest ih =>
    obtain ⟨next, evolves⟩ :=
      idle.compileSource first.1 planted (plain first (List.mem_cons_self ..))
    exact ih next (planted.evolve evolves) fun command member =>
      plain command (List.mem_cons_of_mem first member)

/-- Seeds entities and compiles commands for them. Commands that read nothing are executed and gone
then. -/
def assemble (maxSteps : Nat) (seedlings : List Seedling) (relation : Relation) (catalog : Catalog)
    (commands : List (EntityId × String)) : Network :=
  let (trees, network) := plantAll maxSteps seedlings
  compileAll ⟨relation, catalog, trees⟩ network commands

theorem idle_assemble (maxSteps : Nat) (seedlings : List Seedling) (relation : Relation)
    (catalog : Catalog) {commands : List (EntityId × String)}
    (plain : ∀ command ∈ commands, isPlainSource command.2 = true) :
    Idle (assemble maxSteps seedlings relation catalog commands) := by
  obtain ⟨unwired, planted⟩ := unwired_plantAll maxSteps seedlings
  exact unwired.idle.compileAll planted plain

theorem Idle.not_hasExecuted {network : Network} (idle : Idle network) (handle : Handle) :
    ¬HasExecuted network handle := by
  rintro ⟨command, found, done⟩
  rw [← idle.executed handle command found, idle.quiet] at done
  simp at done

/-- Commands that feed one another in a circle. -/
theorem Idle.starved {network : Network} (idle : Idle network) :
    Starved network fun handle => Relation.TransGen (Feeds network) handle handle := by
  refine fun reader circle => ⟨idle.not_hasExecuted reader, ?_⟩
  obtain ⟨feeder, path, feeds⟩ := Relation.TransGen.tail'_iff.1 circle
  exact ⟨feeder, .head' feeds path, feeds⟩

/-- Of the commands that are left after compilation none has been executed. Later one is executed
only when a look finds its root ready. Then it has not been executed before, what it reads has
propagated, and every command that writes there, or below, has been executed. A command on a circle
is never executed. -/
theorem commands_ordered (maxSteps : Nat) (seedlings : List Seedling) (relation : Relation)
    (catalog : Catalog) (commands : List (EntityId × String))
    (plain : ∀ command ∈ commands, isPlainSource command.2 = true) (requests : List Request) :
    let compiled := assemble maxSteps seedlings relation catalog commands
    let final := performAll compiled requests
    (∀ handle, ¬HasExecuted compiled handle) ∧
    (∀ handle, HasExecuted final handle →
      ∃ look ∈ allLooks compiled requests, look.key = .ofTree handle ∧ look.answer = .ready) ∧
    (∀ look ∈ allLooks compiled requests, look.answer = .ready → ∀ handle command,
      look.key = .ofTree handle → compiled.command? handle = some command →
        ¬HasExecuted look.network handle ∧
        (∀ source ∈ command.sources, look.network.isPropagated source = true) ∧
        ∀ feeder, Feeds compiled feeder handle → HasExecuted look.network feeder) ∧
    ∀ handle, Relation.TransGen (Feeds compiled) handle handle → ¬HasExecuted final handle := by
  intro compiled final
  have idle : Idle compiled := idle_assemble maxSteps seedlings relation catalog plain
  have proceeds := idle.proceeds_course (course_performAll requests idle.sound)
  refine ⟨idle.not_hasExecuted, fun handle done =>
    (proceeds.executed handle done).resolve_left (idle.not_hasExecuted handle),
    fun look member answer handle command root found => ?_,
    fun handle circle => (proceeds.starved _ idle.starved handle circle).1⟩
  obtain ⟨wired, same, stands⟩ := proceeds.seen look member
  have ready : look.network.standing (.ofTree handle) = .ready := root ▸ stands answer
  obtain ⟨executed, present⟩ := same.found found
  obtain ⟨fresh, sources⟩ := wired.ordered present ready
  refine ⟨?_, fun source reads => (sources source reads).1, fun feeder feeds =>
    wired.feeder_executed (feeds.later same) ready⟩
  rintro ⟨other, foundOther, done⟩
  obtain rfl := Option.some.inj (present.symm.trans foundOther)
  exact Bool.false_ne_true (fresh.symm.trans done)

/-- An entity with two commands, the first of which reads what the second writes, and with one that
reads what it writes itself. -/
def circuit : Network :=
  assemble 64
    [⟨⟨⟨1⟩, ⟨1⟩, none, none, Payload.empty, none, false, .none⟩,
      ⟨⟨1⟩, "point", [], ∅, none, false⟩, none⟩]
    .empty ⟨.empty, ∅, default⟩
    [(⟨1⟩, "a = \x7b\x7bb\x7d\x7d"), (⟨1⟩, "b = \x7b\x7bc\x7d\x7d"),
      (⟨1⟩, "d = \x7b\x7bd\x7d\x7d")]

def pulses : List Request :=
  [.activate ⟨⟨0, 0⟩, ["c"]⟩, .activate (.ofTree ⟨3, 0⟩), .activate ⟨⟨0, 0⟩, ["b"]⟩,
    .activate (.ofTree ⟨2, 0⟩)]

theorem feeds_circuit {feeder reader : Handle} {key : Address}
    (writes : (circuit.command? feeder).bind Compiled.target = some key)
    (reads : (circuit.command? reader).map Compiled.sources = some [key]) :
    Feeds circuit feeder reader := by
  obtain ⟨writing, foundFeeder, target⟩ := Option.bind_eq_some_iff.1 writes
  obtain ⟨reading, foundReader, sources⟩ := Option.map_eq_some_iff.1 reads
  exact ⟨writing, reading, key, key, foundFeeder, foundReader, target, by simp [sources], rfl,
    Path.isWithin_refl key.path⟩

theorem commands_ordered_circuit :
    (∃ look ∈ allLooks circuit pulses, look.key = .ofTree ⟨2, 0⟩ ∧
      ¬HasExecuted look.network ⟨2, 0⟩ ∧ HasExecuted look.network ⟨3, 0⟩) ∧
    HasExecuted (performAll circuit pulses) ⟨2, 0⟩ ∧
    ¬HasExecuted (performAll circuit pulses) ⟨4, 0⟩ := by
  obtain ⟨-, looked, ordered, starved⟩ := commands_ordered 64 _ .empty ⟨.empty, ∅, default⟩
    [(⟨1⟩, "a = \x7b\x7bb\x7d\x7d"), (⟨1⟩, "b = \x7b\x7bc\x7d\x7d"),
      (⟨1⟩, "d = \x7b\x7bd\x7d\x7d")] (by decide +kernel) pulses
  have ran : HasExecuted (performAll circuit pulses) ⟨2, 0⟩ := by
    have done : ((performAll circuit pulses).command? ⟨2, 0⟩).map Compiled.executed =
        some true := by decide +kernel
    exact Option.map_eq_some_iff.1 done
  have feeds : Feeds circuit ⟨3, 0⟩ ⟨2, 0⟩ :=
    feeds_circuit (by decide +kernel : _ = some ⟨⟨0, 0⟩, ["b"]⟩) (by decide +kernel)
  have circle : Feeds circuit ⟨4, 0⟩ ⟨4, 0⟩ :=
    feeds_circuit (by decide +kernel : _ = some ⟨⟨0, 0⟩, ["d"]⟩) (by decide +kernel)
  obtain ⟨look, member, root, ready⟩ := looked ⟨2, 0⟩ ran
  have ⟨_, reading, _, _, _, found, _⟩ := feeds
  obtain ⟨fresh, -, fed⟩ := ordered look member ready ⟨2, 0⟩ reading root found
  exact ⟨⟨look, member, root, fresh, fed ⟨3, 0⟩ feeds⟩, ran, starved ⟨4, 0⟩ (.single circle)⟩

end ConceptLaws.Command
