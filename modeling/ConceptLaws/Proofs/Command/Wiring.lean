import ConceptLaws.Proofs.Propagation.Stride
import Mathlib.Logic.Relation

/-! Wired commands.
The root of a command waits on everything the command reads, and the target waits on the root. No
cascade undoes this as long as nothing is bound. A key on which a command writes is not complete
before the command has run, so whatever waits on that key, or on one above it, comes later. -/

namespace ConceptLaws.Command

open Propagation Propagation.Network

namespace BoundBlock

def keys : BoundBlock → List Address
  | text _ => []
  | sources keys _ _ => keys

end BoundBlock

/-- The keys that a command reads. -/
def Compiled.sources (command : Compiled) : List Address := command.blocks.flatMap BoundBlock.keys

/-- A command is connected with what it reads and writes. -/
structure Joined (network : Network) (handle : Handle) (command : Compiled) : Prop where
  unbound : command.bind = none
  unknown : network.isKnown (.ofTree handle) = false
  reads : ∀ source ∈ command.sources,
    network.Waits (.ofTree handle) source ∧ (network.tree? source.tree).isSome
  writes : ∀ target, command.target = some target → network.Waits target (.ofTree handle) ∧
    ∀ above, target.path.isWithin above = true → network.isKnown ⟨target.tree, above⟩ = false

/-- All commands of a network are connected, those whose root is complete have been executed, and a
target that is complete, or lies below a key that is, waits no longer. -/
structure Wired (network : Network) : Prop where
  sound : network.Sound
  silent : ∀ waiter source edge, network.edge? waiter source = some edge → edge.callback = none
  joined : ∀ handle command, network.command? handle = some command →
    Joined network handle command
  settled : ∀ handle command target, network.command? handle = some command →
    command.target = some target → ∀ above, target.path.isWithin above = true →
      network.isPropagated ⟨target.tree, above⟩ = true →
        ∀ done, network.HasEdge target (.ofTree handle) done → done = true
  executed : ∀ handle command, network.command? handle = some command →
    (network.isPropagated (.ofTree handle) = true ↔ command.executed = true)

theorem isKnown_eq_false_of_stride {network later : Network} {marked : Address → Prop}
    {linked : Address → Address → Edge → Prop} (stride : network.Stride later marked linked)
    {key : Address} (unknown : network.isKnown key = false) : later.isKnown key = false := by
  rw [← Bool.not_eq_true] at unknown ⊢
  exact fun known => unknown (stride.known key known)

theorem Joined.later {network later : Network} {handle : Handle} {command : Compiled}
    (joined : Joined network handle command) (evolves : network.Evolves later)
    {marked : Address → Prop} {linked : Address → Address → Edge → Prop}
    (stride : network.Stride later marked linked) (executed : Bool) :
    Joined later handle { command with executed } := by
  refine ⟨joined.unbound, isKnown_eq_false_of_stride stride joined.unknown,
    fun source member => ?_, fun target writes => ?_⟩
  · obtain ⟨waits, live⟩ := joined.reads source member
    obtain ⟨tree, found⟩ := Option.isSome_iff_exists.1 live
    obtain ⟨treeAfter, foundAfter, -⟩ := evolves.live _ tree found
    exact ⟨waits.evolve evolves, by simp [foundAfter]⟩
  · obtain ⟨waits, unknown⟩ := joined.writes target writes
    exact ⟨waits.evolve evolves,
      fun above within => isKnown_eq_false_of_stride stride (unknown above within)⟩

theorem root_propagated {network later : Network} {handle : Handle}
    (propagated : network.isPropagated (.ofTree handle) = true) (evolves : network.Evolves later) :
    later.isPropagated (.ofTree handle) = true := by
  obtain ⟨cell, found, done⟩ := isPropagated_iff.1 propagated
  obtain ⟨after, foundAfter, grows⟩ := evolves.kept _ cell found (Or.inl rfl)
  exact isPropagated_iff.2 ⟨after, foundAfter, grows.propagated done⟩

/-- Commands stay wired when edges are satisfied and keys are marked, provided that no key is marked
above a target that still waits on its command. -/
theorem Wired.later {network later : Network} (wired : Wired network)
    (advances : network.Advances later) {marked : Address → Prop}
    (stride : network.Stride later marked fun _ _ edge => edge = ⟨true, none⟩)
    (commands : ∀ handle after, later.command? handle = some after →
      ∃ command, network.command? handle = some command ∧
        after = { command with executed := after.executed } ∧
          (after.executed = true ↔ command.executed = true ∨ marked (.ofTree handle)))
    (cleared : ∀ key handle command target, marked key →
      network.command? handle = some command → command.target = some target →
        target.tree = key.tree → target.path.isWithin key.path = true →
          ∀ done, network.HasEdge target (.ofTree handle) done → done = true)
    (complete : ∀ handle, marked (.ofTree handle) →
      later.isPropagated (.ofTree handle) = true) : Wired later := by
  refine ⟨advances.sound, fun waiter source edge held => ?_, fun handle after found => ?_,
    fun handle after target found writes above within propagated done held => ?_,
    fun handle after found => ?_⟩
  · rcases stride.edges waiter source edge held with old | rfl
    · exact wired.silent waiter source edge old
    · rfl
  · obtain ⟨command, before, same, -⟩ := commands handle after found
    rw [same]
    exact (wired.joined handle command before).later advances.evolves stride after.executed
  · obtain ⟨command, before, same, -⟩ := commands handle after found
    rw [same] at writes
    obtain ⟨edge, present, rfl⟩ := hasEdge_iff_edge?.1 held
    rcases stride.edges _ _ edge present with old | rfl
    · have heldBefore := hasEdge_iff_edge?.2 ⟨edge, old, rfl⟩
      rcases stride.propagated _ propagated with was | new
      · exact wired.settled handle command target before writes above within was _ heldBefore
      · exact cleared _ handle command target new before writes rfl within _ heldBefore
    · rfl
  · obtain ⟨command, before, -, ran⟩ := commands handle after found
    rw [ran, ← wired.executed handle command before]
    constructor
    · exact stride.propagated _
    · rintro (was | new)
      · exact root_propagated was advances.evolves
      · exact complete handle new

theorem Wired.of_sameRoles {network later : Network} (wired : Wired network)
    (advances : network.Advances later)
    (stride : network.Stride later noKey fun _ _ edge => edge = ⟨true, none⟩)
    (roles : network.SameRoles later) : Wired later := by
  refine wired.later advances stride (fun handle after found => ?_)
    (fun _ _ _ _ marked => marked.elim) fun _ => False.elim
  rw [roles.command?] at found
  exact ⟨after, found, rfl, by simp⟩

theorem Wired.tame {network later : Network} (wired : Wired network) (tame : network.Tame later) :
    Wired later :=
  wired.of_sameRoles (wired.sound.advances_tame tame)
    (tame.stride.mono (fun _ => id) fun _ _ _ => False.elim) tame.sameRoles

/-- Nothing that a command still has to write stands at or below a key that is ready. -/
theorem Wired.cleared {network : Network} (wired : Wired network) {key : Address} {tree : Tree}
    (ready : network.standing key = .ready) (live : network.tree? key.tree = some tree)
    {handle : Handle} {command : Compiled} {target : Address}
    (found : network.command? handle = some command) (writes : command.target = some target)
    (sameTree : target.tree = key.tree) {top : Path}
    (marked : top = key.path ∨ top ∈ (tree.following key.path).ready)
    (within : target.path.isWithin top = true) {done : Bool}
    (held : network.HasEdge target (.ofTree handle) done) : done = true := by
  obtain ⟨-, unknown⟩ := (wired.joined handle command found).writes target writes
  have below : target.path.isWithin key.path = true := by
    rcases marked with rfl | member
    · exact within
    · obtain ⟨-, -, -, inside, -⟩ := Tree.mem_ready_following member
      exact Path.isWithin_trans within inside
  have unshielded : ∀ above cell, tree.cell? above = some cell →
      target.path.isWithin above = true → cell.known = false := by
    intro above cell present inside
    have dark := unknown above inside
    rw [← Bool.not_eq_true] at dark ⊢
    exact fun known => dark (isKnown_iff.2
      ⟨cell, cell?_eq_some_iff.2 ⟨tree, sameTree ▸ live, present⟩, known⟩)
  obtain ⟨other, cell, able, free⟩ := standing_eq_ready_iff.1 ready
  obtain rfl : tree = other := Option.some.inj (live.symm.trans able.live)
  obtain ⟨justified, liveAgain, justify⟩ :=
    justified_of_ready ready able.cell?_eq (unshielded key.path cell able.found below)
  obtain rfl : tree = justified := Option.some.inj (live.symm.trans liveAgain)
  obtain ⟨holder, edge, foundHolder, waits, rfl⟩ := held
  obtain ⟨otherTree, liveOther, present⟩ := cell?_eq_some_iff.1 foundHolder
  obtain rfl : tree = otherTree := Option.some.inj (live.symm.trans (sameTree ▸ liveOther))
  refine justify.satisfied target.path holder _ edge present below ?_ waits
  intro above shield foundShield known inside different
  cases lower : target.path.isWithin above with
  | false => rfl
  | true => simp [unshielded above shield foundShield lower] at known

theorem Wired.move {network later : Network} {looks : List Look} (wired : Wired network)
    (move : Move network looks later) : Wired later := by
  have advances := move.advances wired.sound
  cases move with
  | satisfy attached =>
    obtain ⟨stride, roles⟩ := stride_satisfy fun edge => wired.silent _ _ edge
    exact wired.of_sameRoles advances stride roles
  | pass => exact wired
  | complete orderly ready =>
    rename_i cascade key
    obtain ⟨tree, _, able, -⟩ := standing_eq_ready_iff.1 ready
    obtain ⟨stride, runs⟩ := wired.sound.stride_complete orderly ready able.live
      fun command found => (wired.joined key.tree command found).unbound
    have root : ∀ handle, (Address.ofTree handle).tree = key.tree ∧
        ((Address.ofTree handle).path = key.path ∨
          (Address.ofTree handle).path ∈ (tree.following key.path).ready) ↔
        Address.ofTree handle = key := by
      intro handle
      constructor
      · rintro ⟨sameTree, samePath | member⟩
        · cases key
          simp_all [Address.ofTree]
        · exact absurd rfl (ne_root_of_mem_ready member)
      · rintro rfl
        exact ⟨rfl, Or.inl rfl⟩
    refine wired.later advances (stride.mono (fun _ => id) fun _ _ _ => False.elim)
      (fun handle after found => ?_) (fun other handle command target marked found writes sameTree
        within done held => ?_) fun handle marked => ?_
    · rw [root]
      rw [runs handle] at found
      by_cases same : Address.ofTree handle = key
      · rw [if_pos same, Option.map_eq_some_iff] at found
        obtain ⟨command, before, rfl⟩ := found
        exact ⟨command, before, rfl, by simp [same]⟩
      · rw [if_neg same] at found
        exact ⟨after, found, rfl, by simp [same]⟩
    · exact wired.cleared ready able.live found writes (sameTree.trans marked.1) marked.2 within
        held
    · rw [(root handle).1 marked]
      exact (wired.sound.advances_complete orderly ready).2

/-! ## The order of execution -/

/-- What the edges of a wired key say, as long as the trees they lead to are there. -/
theorem Wired.propagated_of_satisfied {network : Network} (wired : Wired network)
    {waiter source : Address} (held : network.HasEdge waiter source true)
    (live : (network.tree? source.tree).isSome) : network.isPropagated source = true := by
  obtain ⟨cell, found, -, done⟩ := (wired.sound.linked waiter source true held).2 live
  exact isPropagated_iff.2 ⟨cell, found, done rfl⟩

theorem Wired.satisfied_of_ready {network : Network} (wired : Wired network) {handle : Handle}
    {command : Compiled} (found : network.command? handle = some command)
    (ready : network.standing (.ofTree handle) = .ready) {source : Address}
    (member : source ∈ command.sources) : network.HasEdge (.ofTree handle) source true := by
  obtain ⟨tree, cell, able, -⟩ := standing_eq_ready_iff.1 ready
  have unknown : cell.known = false := by
    have dark := (wired.joined handle command found).unknown
    rw [← Bool.not_eq_true] at dark ⊢
    exact fun known => dark (isKnown_iff.2 ⟨cell, able.cell?_eq, known⟩)
  obtain ⟨other, live, justified⟩ := justified_of_ready ready able.cell?_eq unknown
  obtain rfl : tree = other := Option.some.inj (able.live.symm.trans live)
  obtain ⟨⟨done, holder, edge, foundHolder, waits, -⟩, -⟩ :=
    (wired.joined handle command found).reads source member
  obtain rfl : cell = holder := Option.some.inj (able.cell?_eq.symm.trans foundHolder)
  exact ⟨cell, edge, foundHolder, waits, justified.satisfied _ cell source edge able.found
    (Path.isWithin_refl _) (tree.exposed_self _) waits⟩

/-- When a command can be executed it has not been, its sources have propagated, and every command
that writes at or below one of them has been executed. -/
theorem Wired.ordered {network : Network} (wired : Wired network) {handle : Handle}
    {command : Compiled} (found : network.command? handle = some command)
    (ready : network.standing (.ofTree handle) = .ready) :
    command.executed = false ∧ ∀ source ∈ command.sources, network.isPropagated source = true ∧
      ∀ other feeder target, network.command? other = some feeder →
        feeder.target = some target → target.tree = source.tree →
          target.path.isWithin source.path = true → feeder.executed = true := by
  obtain ⟨tree, cell, able, -⟩ := standing_eq_ready_iff.1 ready
  refine ⟨?_, fun source member => ?_⟩
  · rw [← Bool.not_eq_true, ← wired.executed handle command found, isPropagated_iff]
    rintro ⟨other, foundOther, done⟩
    obtain rfl : cell = other := Option.some.inj (able.cell?_eq.symm.trans foundOther)
    simp [able.waiting] at done
  · have propagated := wired.propagated_of_satisfied (wired.satisfied_of_ready found ready member)
      ((wired.joined handle command found).reads source member).2
    refine ⟨propagated, fun other feeder target foundOther writes sameTree within => ?_⟩
    obtain ⟨⟨done, held⟩, -⟩ := (wired.joined other feeder foundOther).writes target writes
    have satisfied := wired.settled other feeder target foundOther writes source.path within
      (by simpa [sameTree] using propagated) done held
    subst satisfied
    obtain ⟨feederTree, live, -⟩ := command?_eq_some_iff.1 foundOther
    exact (wired.executed other feeder foundOther).1
      (wired.propagated_of_satisfied held (by simp [Address.ofTree, live]))

/-- The commands are the same, executed or not. -/
def SameCommands (network later : Network) : Prop :=
  ∀ handle, (later.command? handle).map (fun command => { command with executed := false }) =
    (network.command? handle).map fun command => { command with executed := false }

theorem SameCommands.trans {first second third : Network} (earlier : SameCommands first second)
    (later : SameCommands second third) : SameCommands first third :=
  fun handle => (later handle).trans (earlier handle)

theorem sameCommands_refl (network : Network) : SameCommands network network := fun _ => rfl

theorem sameCommands_of_sameRoles {network later : Network} (same : network.SameRoles later) :
    SameCommands network later := fun handle => by rw [same.command?]

theorem sameCommands_of_runs {network later : Network} {key : Address}
    (runs : network.Runs later key) : SameCommands network later := by
  intro handle
  rw [runs handle]
  split
  · rw [Option.map_map]
    rfl
  · rfl

theorem SameCommands.found {network later : Network} (same : SameCommands network later)
    {handle : Handle} {command : Compiled} (found : network.command? handle = some command) :
    ∃ executed, later.command? handle = some { command with executed } := by
  have stripped := same handle
  rw [found, Option.map_some, Option.map_eq_some_iff] at stripped
  obtain ⟨after, foundAfter, equal⟩ := stripped
  refine ⟨after.executed, foundAfter.trans (congrArg some ?_)⟩
  cases after
  cases command
  simp_all

def HasExecuted (network : Network) (handle : Handle) : Prop :=
  ∃ command, network.command? handle = some command ∧ command.executed = true

/-- A command writes at or below what another one reads. -/
def Feeds (network : Network) (feeder reader : Handle) : Prop :=
  ∃ writing reading target source, network.command? feeder = some writing ∧
    network.command? reader = some reading ∧ writing.target = some target ∧
      source ∈ reading.sources ∧ target.tree = source.tree ∧
        target.path.isWithin source.path = true

theorem Feeds.later {network later : Network} (same : SameCommands network later)
    {feeder reader : Handle} (feeds : Feeds network feeder reader) : Feeds later feeder reader := by
  obtain ⟨writing, reading, target, source, foundFeeder, foundReader, writes, member, within⟩ :=
    feeds
  obtain ⟨first, foundFirst⟩ := same.found foundFeeder
  obtain ⟨second, foundSecond⟩ := same.found foundReader
  exact ⟨_, _, target, source, foundFirst, foundSecond, writes, member, within⟩

theorem Wired.feeder_executed {network : Network} (wired : Wired network) {feeder reader : Handle}
    (feeds : Feeds network feeder reader)
    (ready : network.standing (.ofTree reader) = .ready) : HasExecuted network feeder := by
  obtain ⟨writing, reading, target, source, foundFeeder, foundReader, writes, member, sameTree,
    within⟩ := feeds
  exact ⟨writing, foundFeeder, ((wired.ordered foundReader ready).2 source member).2 feeder writing
    target foundFeeder writes sameTree within⟩

/-- Commands that have not been executed and feed one another. -/
def Starved (network : Network) (members : Handle → Prop) : Prop :=
  ∀ reader, members reader →
    ¬HasExecuted network reader ∧ ∃ feeder, members feeder ∧ Feeds network feeder reader

theorem Starved.later {network later : Network} {members : Handle → Prop}
    (starved : Starved network members) (same : SameCommands network later)
    (unexecuted : ∀ handle, members handle → ¬HasExecuted later handle) :
    Starved later members := by
  intro reader member
  obtain ⟨-, feeder, feeding, feeds⟩ := starved reader member
  exact ⟨unexecuted reader member, feeder, feeding, feeds.later same⟩

/-! ## Courses -/

/-- What a course does to the commands, and when. -/
structure Proceeds (start : Network) (looks : List Look) (final : Network) : Prop where
  wired : Wired final
  same : SameCommands start final
  seen : ∀ look ∈ looks, Wired look.network ∧ SameCommands start look.network ∧
    (look.answer = .ready → look.network.standing look.key = .ready)
  executed : ∀ handle, HasExecuted final handle → HasExecuted start handle ∨
    ∃ look ∈ looks, look.key = .ofTree handle ∧ look.answer = .ready
  starved : ∀ members, Starved start members → Starved final members

theorem Wired.proceeds_refl {network : Network} (wired : Wired network) :
    Proceeds network [] network :=
  ⟨wired, sameCommands_refl network, by simp, fun _ => Or.inl, fun _ => id⟩

theorem Proceeds.trans {first second third : Network} {looks later : List Look}
    (earlier : Proceeds first looks second) (rest : Proceeds second later third) :
    Proceeds first (looks ++ later) third := by
  refine ⟨rest.wired, earlier.same.trans rest.same, fun look member => ?_, fun handle done => ?_,
    fun members => rest.starved members ∘ earlier.starved members⟩
  · rcases List.mem_append.1 member with before | after
    · exact earlier.seen look before
    · obtain ⟨wired, same, ready⟩ := rest.seen look after
      exact ⟨wired, earlier.same.trans same, ready⟩
  · rcases rest.executed handle done with before | ⟨look, member, at_⟩
    · rcases earlier.executed handle before with start | ⟨look, member, at_⟩
      · exact Or.inl start
      · exact Or.inr ⟨look, List.mem_append_left _ member, at_⟩
    · exact Or.inr ⟨look, List.mem_append_right _ member, at_⟩

theorem Wired.proceeds_of_sameRoles {network later : Network} (roles : network.SameRoles later)
    (wired : Wired later) : Proceeds network [] later := by
  have same := sameCommands_of_sameRoles roles
  have before : ∀ handle, HasExecuted later handle → HasExecuted network handle := by
    rintro handle ⟨command, found, done⟩
    exact ⟨command, (roles.command? handle).symm.trans found, done⟩
  exact ⟨wired, same, by simp, fun handle done => Or.inl (before handle done),
    fun _ starved => starved.later same fun handle member done =>
      (starved handle member).1 (before handle done)⟩

theorem Wired.proceeds_move {network later : Network} {looks : List Look} (wired : Wired network)
    (move : Move network looks later) : Proceeds network looks later := by
  have after := wired.move move
  cases move with
  | satisfy attached =>
    exact after.proceeds_of_sameRoles (stride_satisfy fun edge => wired.silent _ _ edge).2
  | pass key unready =>
    exact ⟨wired, sameCommands_refl network,
      by simp [wired, sameCommands_refl, unready], fun _ => Or.inl, fun _ => id⟩
  | complete orderly ready =>
    rename_i cascade key
    obtain ⟨tree, _, able, -⟩ := standing_eq_ready_iff.1 ready
    obtain ⟨-, runs⟩ := wired.sound.stride_complete orderly ready able.live
      fun command found => (wired.joined key.tree command found).unbound
    have same := sameCommands_of_runs runs
    have only : ∀ handle, HasExecuted (network.complete cascade key) handle →
        HasExecuted network handle ∨ Address.ofTree handle = key := by
      rintro handle ⟨command, found, done⟩
      rw [runs handle] at found
      by_cases root : Address.ofTree handle = key
      · exact Or.inr root
      · rw [if_neg root] at found
        exact Or.inl ⟨command, found, done⟩
    refine ⟨after, same, by simp [wired, sameCommands_refl, ready], fun handle done => ?_,
      fun members starved => starved.later same fun handle member done => ?_⟩
    · exact (only handle done).imp_right fun root =>
        ⟨_, List.mem_singleton_self _, root.symm, rfl⟩
    · obtain ⟨unexecuted, feeder, feeding, feeds⟩ := starved handle member
      rcases only handle done with before | rfl
      · exact unexecuted before
      · exact (starved feeder feeding).1 (wired.feeder_executed feeds ready)

theorem Wired.proceeds_run {network later : Network} {looks : List Look} (wired : Wired network)
    (run : Run network looks later) : Proceeds network looks later := by
  induction run with
  | refl => exact wired.proceeds_refl
  | step move _ ih =>
    have first := wired.proceeds_move move
    exact first.trans (ih first.wired)

theorem Wired.proceeds_course {network later : Network} {looks : List Look} (wired : Wired network)
    (course : Course network looks later) : Proceeds network looks later := by
  induction course with
  | refl => exact wired.proceeds_refl
  | run run _ ih =>
    have first := wired.proceeds_run run
    exact first.trans (ih first.wired)
  | tame tame _ ih =>
    have first := (wired.tame tame).proceeds_of_sameRoles tame.sameRoles
    exact first.trans (ih first.wired)

end ConceptLaws.Command
