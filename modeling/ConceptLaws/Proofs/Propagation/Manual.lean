import ConceptLaws.Proofs.Propagation.Wakeup

/-! Operations without commands.
A round of settling puts every key that is unsettled on the agenda. Where all of them are asleep it
changes nothing, and where it changes nothing none of them could have been completed. As long as no
command is compiled, operations leave nothing on the agenda behind; a round of settling that gets to
its end then leaves exactly those keys that a look found open and whose open edges were all satisfied
by looks at other keys. -/

namespace ConceptLaws.Propagation.Network

theorem mem_unsettled {network : Network} {key : Address} :
    key ∈ network.unsettled ↔
      network.isActive key = true ∧ network.isPropagated key = false := by
  obtain ⟨top, path⟩ := key
  unfold unsettled
  simp only [List.mem_flatMap, List.mem_map, List.mem_filter, Prod.exists, Arena.mem_entries,
    Tree.mem_keys, Bool.and_eq_true, Bool.not_eq_true', Address.mk.injEq]
  constructor
  · rintro ⟨top, tree, live, path, cell, ⟨found, active, unfinished⟩, rfl, rfl⟩
    have present : network.cell? ⟨top, path⟩ = some cell :=
      cell?_eq_some_iff.2 ⟨tree, live, found⟩
    simp [isActive, isPropagated, present, active, unfinished]
  · rintro ⟨active, unfinished⟩
    cases present : network.cell? ⟨top, path⟩ with
    | none => simp [isActive, present] at active
    | some cell =>
      obtain ⟨tree, live, found⟩ := cell?_eq_some_iff.1 present
      simp only [isActive, present, Option.map_some, Option.getD_some] at active
      simp only [isPropagated, present, Option.map_some, Option.getD_some] at unfinished
      exact ⟨top, tree, live, path, cell, ⟨found, active, unfinished⟩, rfl, rfl⟩

/-- The network with all that is unsettled on its agenda. -/
def settling (network : Network) : Network :=
  network.updateAgenda fun agenda => agenda.pushChecks network.unsettled

theorem Passive.awake_settling {network : Network} (passive : network.Passive)
    (neat : network.agenda.Neat) : Awake network.settling [] network.settling := by
  refine ⟨passive.progress (progress_of_trees rfl), network.settling.progress_refl, by simp,
    fun key active unfinished => Or.inl ?_⟩
  exact neat.check_mem_pushChecks (mem_unsettled.2 ⟨active, unfinished⟩)

theorem Asleep.of_trees {network later : Network} (trees : later.trees = network.trees)
    {key : Address} (asleep : network.Asleep key) : later.Asleep key := by
  obtain ⟨otherTrees, agenda, maxSteps, counts, changed⟩ := later
  obtain rfl : otherTrees = network.trees := trees
  exact asleep

theorem drainSteps_asleep (steps : Nat) {network : Network}
    (asleep : ∀ event ∈ network.agenda.events, ∃ key, event = .check key ∧ network.Asleep key) :
    (network.drainSteps steps).trees = network.trees := by
  induction steps generalizing network with
  | zero =>
    unfold drainSteps
    cases network.agenda.pop? with
    | none => rfl
    | some pair => rfl
  | succ steps ih =>
    unfold drainSteps
    cases taken : network.agenda.pop? with
    | none => rfl
    | some pair =>
      obtain ⟨event, agenda⟩ := pair
      obtain ⟨listed, left⟩ := mem_of_pop? taken
      obtain ⟨key, rfl, still⟩ := asleep event listed
      have same : ({ network with agenda } : Network).countEvent.trees = network.trees := rfl
      dsimp only
      have handled : ({ network with agenda } : Network).countEvent.handle (.check key) =
          ({ network with agenda } : Network).countEvent := by
        simp [handle, (still.of_trees same).check id]
      rw [handled]
      refine (ih fun other member => ?_).trans same
      obtain ⟨otherKey, rfl, otherStill⟩ := asleep other (left other member)
      exact ⟨otherKey, rfl, otherStill.of_trees same⟩

/-- Where every key is asleep there is nothing to settle. -/
theorem trees_settle_of_asleep {network : Network} (idle : network.agenda = .empty)
    (asleep : ∀ key, network.isActive key = true → network.isPropagated key = false →
      network.Asleep key) : network.settle.trees = network.trees := by
  have same : network.settling.trees = network.trees := rfl
  refine (drainSteps_asleep network.settling.maxSteps fun event member => ?_).trans same
  rcases Agenda.mem_foldl_pushCheck member with old | ⟨key, listed, rfl⟩
  · simp [idle, Agenda.empty] at old
  · obtain ⟨active, unfinished⟩ := mem_unsettled.1 (List.mem_mergeSort.1 listed)
    exact ⟨key, rfl, (asleep key active unfinished).of_trees same⟩

theorem standing_of_trees {network later : Network} (trees : later.trees = network.trees)
    (key : Address) : later.standing key = network.standing key := by
  obtain ⟨otherTrees, agenda, maxSteps, counts, changed⟩ := later
  obtain rfl : otherTrees = network.trees := trees
  rfl

/-- A round that gets to its end leaves no key as it was that could be woken up. -/
theorem Passive.not_ready_of_trees_settle {network : Network} (passive : network.Passive)
    (neat : network.agenda.Neat) (drains : drainsWithin network.maxSteps network.settling = true)
    (same : network.settle.trees = network.trees) (key : Address) :
    network.standing key ≠ .ready := by
  intro ready
  obtain ⟨awake, finished⟩ := (passive.awake_settling neat).drainSteps network.maxSteps drains
  have readyThen : network.settle.standing key = .ready := (standing_of_trees same key).trans ready
  obtain ⟨active, unfinished, -⟩ := wakeable_of_ready readyThen
  rcases awake.asleep_or_overlooked finished active unfinished with
    asleep | ⟨-, look, member, rfl, edges, waits, -⟩
  · rcases asleep with stuck | ⟨edges, waits, -⟩
    · exact Standing.noConfusion (readyThen.symm.trans stuck)
    · exact Standing.noConfusion (readyThen.symm.trans waits)
  · obtain ⟨since, watched⟩ := awake.watched look member
    have unfinishedThen : look.network.isPropagated look.key = false := by
      rw [← Bool.not_eq_true] at unfinished ⊢
      exact fun done => unfinished (watched.progress.isPropagated done)
    have readyBefore : network.settling.standing look.key = .ready := ready
    have still := since.still_ready readyBefore unfinishedThen
    exact Standing.noConfusion (still.symm.trans waits)

end ConceptLaws.Propagation.Network

namespace ConceptLaws.Propagation.Network

/-! ## What keeps a network at rest -/

/-- There are no commands, and nothing is left to be done. -/
structure AtRest (network : Network) : Prop where
  vacant : ∀ handle, network.command? handle = none
  idle : network.agenda = .empty

/-- The trees keep their roles, and events are only added. -/
structure Gentle (network later : Network) : Prop where
  roles : network.SameRoles later
  agenda : network.agenda.Extends later.agenda

theorem Gentle.trans {first second third : Network} (earlier : first.Gentle second)
    (later : second.Gentle third) : first.Gentle third :=
  ⟨earlier.roles.trans later.roles, earlier.agenda.trans later.agenda⟩

theorem gentle_refl (network : Network) : network.Gentle network :=
  ⟨fun _ => rfl, network.agenda.extends_refl⟩

theorem gentle_updateTree {network : Network} {handle : Handle} {change : Tree → Tree}
    (same : ∀ tree, (change tree).role = tree.role) :
    network.Gentle (network.updateTree handle change) :=
  ⟨sameRoles_updateTree same, network.agenda.extends_refl⟩

theorem gentle_ensureWith (network : Network) (key : Address) (change : Cell → Cell) :
    network.Gentle (network.ensureWith key change) :=
  gentle_updateTree fun _ => rfl

theorem gentle_updateAgenda (network : Network) {change : Agenda → Agenda}
    (extends_ : network.agenda.Extends (change network.agenda)) :
    network.Gentle (network.updateAgenda change) :=
  ⟨fun _ => rfl, extends_⟩

theorem agenda_walkActivation (turns : Nat) (walk : ActivationWalk) :
    (walkActivation turns walk).network.agenda = walk.network.agenda := by
  induction turns generalizing walk with
  | zero => rfl
  | succ turns ih =>
    unfold walkActivation
    split
    · rfl
    · rw [ih, activateSubtree_network]
      rfl

theorem extends_activateFrom (network : Network) (key : Address) :
    network.agenda.Extends (network.activateFrom key).agenda := by
  have walked := agenda_walkActivation (network.edgeCount + 1) ⟨network, [key], ∅, []⟩
  have after : (network.activateFrom key).agenda = network.agenda.pushChecks
      (walkActivation (network.edgeCount + 1) ⟨network, [key], ∅, []⟩).found :=
    congrArg (fun agenda : Agenda => agenda.pushChecks _) walked
  rw [after]
  exact network.agenda.extends_pushChecks _

theorem Founded.gentle_activateFrom {network : Network} (founded : network.Founded)
    (key : Address) : network.Gentle (network.activateFrom key) :=
  ⟨(founded.tame_activateFrom key).sameRoles, network.extends_activateFrom key⟩

theorem extends_waitOn (network : Network) (waiter source : Address)
    (callback : Option Callback) :
    network.agenda.Extends (network.waitOn waiter source callback).2.agenda := by
  unfold waitOn
  split
  · exact network.agenda.extends_refl
  · dsimp only
    split
    · exact network.agenda.extends_refl
    · have same : (((network.prepareWaiter waiter).addEdge waiter source callback).ensureWith
          source fun cell => { cell with triggers := cell.triggers.insert waiter }).agenda =
            network.agenda := rfl
      generalize ((network.prepareWaiter waiter).addEdge waiter source callback).ensureWith
        source _ = linked at same ⊢
      rw [← same]
      have roused : linked.agenda.Extends (if ((network.prepareWaiter waiter).addEdge waiter source
          callback).isActive waiter then linked.activateFrom source else linked).agenda := by
        split
        · exact linked.extends_activateFrom source
        · exact linked.agenda.extends_refl
      split
      · exact roused.trans (Agenda.extends_pushResolve _ waiter source)
      · exact roused

theorem Sound.gentle_waitOn {network : Network} (sound : network.Sound) (waiter source : Address)
    (callback : Option Callback) : network.Gentle (network.waitOn waiter source callback).2 :=
  ⟨(sound.stride_waitOn waiter source callback).2, network.extends_waitOn waiter source callback⟩

/-! ## The operations -/

/-- The networks that the operations lead to as long as no command is compiled. -/
inductive Manual : Network → Prop
  | empty (maxSteps : Nat) : Manual (empty maxSteps)
  | create {network : Network} (before : Manual network) (role : Role)
      (ordinary : ∀ command, role ≠ .command command) : Manual (network.create role).2
  | createEntity {network : Network} (before : Manual network) (entity : Entity)
      (concept : Concept) (precedence : Option Nat) :
      Manual (network.createEntity entity concept precedence).2
  | ensure {network : Network} (before : Manual network) (key : Address) :
      Manual (network.ensure key)
  | wait {network : Network} (before : Manual network) (waiter source : Address)
      (callback : Option Callback) : Manual (network.wait waiter source callback).2
  | block {network : Network} (before : Manual network) (key : Address) :
      Manual (network.block key)
  | know {network : Network} (before : Manual network) (key : Address) (recursive : Bool) :
      Manual (network.know key recursive)
  | editField {network later : Network} (before : Manual network) {entity : EntityId}
      {key : Address} {value : Datum} {old : Option Datum}
      (edited : network.editField entity key value = .ok (old, later)) : Manual later
  | activate {network : Network} (before : Manual network) (key : Address) :
      Manual (network.activate key)
  | checkResolved {network : Network} (before : Manual network) (key : Address) (probe : Bool) :
      Manual (network.checkResolved key probe).2
  | settle {network : Network} (before : Manual network) : Manual network.settle

theorem Manual.reachable {network : Network} (manual : network.Manual) : network.Reachable := by
  induction manual with
  | empty maxSteps => exact .empty maxSteps
  | create _ role _ ih => exact ih.create role
  | createEntity _ entity concept precedence ih => exact ih.createEntity entity concept precedence
  | ensure _ key ih => exact ih.ensure key
  | wait _ waiter source callback ih => exact ih.wait waiter source callback
  | block _ key ih => exact ih.block key
  | know _ key recursive ih => exact ih.know key recursive
  | editField _ edited ih => exact ih.editField edited
  | activate _ key ih => exact ih.activate key
  | checkResolved _ key probe ih => exact ih.checkResolved key probe
  | settle _ ih => exact ih.settle

theorem Passive.drainSteps (steps : Nat) {network : Network} (passive : network.Passive)
    (neat : network.agenda.Neat) :
    network.Progress (network.drainSteps steps) ∧ (network.drainSteps steps).agenda = .empty := by
  induction steps generalizing network with
  | zero =>
    unfold Network.drainSteps
    cases taken : network.agenda.pop? with
    | none =>
      exact ⟨network.progress_refl, neat.eq_empty (Agenda.events_of_pop?_eq_none taken)⟩
    | some pair => exact ⟨progress_of_trees rfl, rfl⟩
  | succ steps ih =>
    unfold Network.drainSteps
    cases taken : network.agenda.pop? with
    | none =>
      exact ⟨network.progress_refl, neat.eq_empty (Agenda.events_of_pop?_eq_none taken)⟩
    | some pair =>
      obtain ⟨event, agenda⟩ := pair
      have left := (Agenda.eq_or_mem_of_pop? taken).1 neat
      have took : network.Progress ({ network with agenda } : Network).countEvent :=
        progress_of_trees rfl
      obtain ⟨heeds, -⟩ := (passive.progress took).handle event
      have progress := took.trans heeds.progress
      obtain ⟨further, empty⟩ := ih (passive.progress progress) (heeds.agenda.neat left)
      exact ⟨progress.trans further, empty⟩

/-- Whatever was put on the agenda is worked off. -/
theorem AtRest.drain {network later : Network} (rest : network.AtRest)
    (gentle : network.Gentle later) (sound : later.Sound) : later.drain.AtRest := by
  have vacant : ∀ handle, later.command? handle = none := fun handle => by
    rw [gentle.roles.command?, rest.vacant]
  have neat := gentle.agenda.neat (rest.idle ▸ Agenda.neat_empty)
  obtain ⟨progress, empty⟩ := (sound.passive vacant).drainSteps later.maxSteps neat
  exact ⟨fun handle => (progress.roles.command? handle).trans (vacant handle), empty⟩

theorem AtRest.gentle {network later : Network} (rest : network.AtRest)
    (roles : network.SameRoles later) (agenda : later.agenda = network.agenda) : later.AtRest :=
  ⟨fun handle => (roles.command? handle).trans (rest.vacant handle), agenda.trans rest.idle⟩

theorem AtRest.create {network : Network} (rest : network.AtRest) (sound : network.Sound)
    (role : Role) (ordinary : ∀ command, role ≠ .command command) :
    (network.create role).2.AtRest := by
  refine ⟨fun handle => ?_, rest.idle⟩
  rw [Option.eq_none_iff_forall_ne_some]
  intro command found
  obtain ⟨tree, live, same⟩ := command?_eq_some_iff.1 found
  rw [sound.tree?_create] at live
  split at live
  · obtain rfl := Option.some.inj live
    exact ordinary command same
  · have before := command?_eq_some_iff.2 ⟨tree, live, same⟩
    simp [rest.vacant] at before

theorem Seeded.atRest {data : Handle} {network later : Network}
    (seeded : Seeded data network later) (rest : network.AtRest) : later.AtRest := by
  induction seeded with
  | none => exact rest
  | more _ path value known ih => exact ih.gentle (sameRoles_updateTree fun _ => rfl) rfl

/-- A known key is only put on the agenda before the cascade runs. -/
theorem gentle_setKnown (network : Network) (key : Address) (recursive : Bool) :
    network.Gentle (network.setKnown id key recursive) := by
  unfold setKnown
  split
  · exact network.gentle_refl
  · dsimp only [id]
    have top := network.gentle_ensureWith key fun cell => { cell with known := true }
    generalize network.ensureWith key (fun cell => { cell with known := true }) = ensured at *
    refine Gentle.trans ?_ (gentle_updateAgenda _ (Agenda.extends_pushCheck _ key))
    split
    · refine top.trans (gentle_updateTree fun tree => ?_)
      generalize tree.subtreePaths key.path = paths
      induction paths generalizing tree with
      | nil => rfl
      | cons first rest ih => exact ih _
    · exact top

theorem setKnown_drain (network : Network) (key : Address) (recursive : Bool) :
    network.setKnown drain key recursive = network ∨
      network.setKnown drain key recursive = (network.setKnown id key recursive).drain := by
  unfold setKnown
  split
  · exact Or.inl rfl
  · exact Or.inr rfl

theorem roles_noteChange (network : Network) (key : Address) :
    network.SameRoles (network.noteChange key) ∧
      (network.noteChange key).agenda = network.agenda := by
  unfold noteChange
  split
  · exact ⟨fun _ => rfl, rfl⟩
  · exact ⟨fun _ => rfl, rfl⟩

theorem gentle_editField {network later : Network} {entity : EntityId} {key : Address}
    {value : Datum} {before : Option Datum}
    (edited : network.editField entity key value = .ok (before, later)) :
    network.SameRoles later ∧ later.agenda = network.agenda := by
  unfold editField at edited
  split at edited
  · simp at edited
  · dsimp only at edited
    split at edited
    · simp at edited
    · obtain ⟨-, rfl⟩ := Prod.mk.inj (Except.ok.inj edited)
      obtain ⟨noted, unchanged⟩ := roles_noteChange ((network.ensure key).updateCell key
        fun cell => { cell.replace (some value) with known := true }) key
      have ensured := network.sameRoles_ensure key
      exact ⟨(ensured.trans (sameRoles_updateCell _ key _)).trans noted, unchanged⟩

/-- A check on demand runs cascades of its own, which leave no command behind either. -/
theorem AtRest.checkResolved {network : Network} (rest : network.AtRest) (sound : network.Sound)
    (key : Address) (probe : Bool) : (network.checkResolved key probe).2.AtRest := by
  have neat := rest.idle ▸ Agenda.neat_empty
  have settled : ∀ {later looks}, Run network looks later → later.drain.AtRest := by
    intro later looks run
    have heeds := run.heeds (sound.passive rest.vacant)
    exact rest.drain ⟨heeds.progress.roles, heeds.agenda⟩ (run.advances sound).sound
  unfold Network.checkResolved
  cases probe with
  | false => exact settled ((sincere_check orderly_drain).run network key sound)
  | true => exact settled ((sincere_probeKey orderly_drain maxCheckDepth ∅).run network key sound)

theorem Manual.atRest {network : Network} (manual : network.Manual) : network.AtRest := by
  induction manual with
  | empty maxSteps => exact ⟨fun _ => rfl, rfl⟩
  | create before role ordinary ih => exact ih.create before.reachable.sound role ordinary
  | @createEntity network before entity concept precedence ih =>
    have sound := before.reachable.sound
    have data := ih.create sound (.data ⟨entity.id, precedence⟩) (by simp)
    have both := data.create (sound.advances_create _).sound
      (.variableTable ⟨some entity.id, ∅⟩) (by simp)
    exact (network.seeded_createEntity entity concept precedence).atRest both
  | ensure _ key ih => exact ih.gentle (sameRoles_ensure _ key) rfl
  | wait before waiter source callback ih =>
    have sound := before.reachable.sound
    exact ih.drain (sound.gentle_waitOn waiter source callback)
      (sound.advances_waitOn waiter source callback).sound
  | block _ key ih => exact ih.gentle (sameRoles_updateTree fun _ => rfl) rfl
  | @know network before key recursive ih =>
    have sound := before.reachable.sound
    unfold Network.know
    rcases network.setKnown_drain key recursive with same | same
    · rwa [same]
    · rw [same]
      exact ih.drain (network.gentle_setKnown key recursive)
        (sound.advances_setKnown orderly_id key recursive).sound
  | editField _ edited ih =>
    obtain ⟨roles, agenda⟩ := gentle_editField edited
    exact ih.gentle roles agenda
  | activate before key ih =>
    have sound := before.reachable.sound
    exact ih.drain (sound.gentle_activateFrom key) (sound.tame (sound.tame_activateFrom key))
  | checkResolved before key probe ih => exact ih.checkResolved before.reachable.sound key probe
  | settle before ih =>
    have sound := before.reachable.sound
    exact ih.drain (gentle_updateAgenda _ (Agenda.extends_pushChecks _ _))
      (sound.tame (sound.tame_pushChecks _))

/-- At the end of a round exactly the overlooked keys could be woken up. Without them a second round
changes nothing, and a second round that changes nothing shows that there are none. -/
theorem Manual.wakeable_settle_iff {network : Network} (manual : network.Manual)
    (drains : drainsWithin network.maxSteps network.settling = true) :
    (∀ key, network.settle.Wakeable key ↔
      Overlooked (drainLooks network.settling) network.settle key) ∧
    ((∀ key, ¬Overlooked (drainLooks network.settling) network.settle key) →
      network.settle.settle.trees = network.settle.trees) ∧
    (network.settle.settle.trees = network.settle.trees →
      drainsWithin network.settle.maxSteps network.settle.settling = true →
        ∀ key, ¬Overlooked (drainLooks network.settling) network.settle key) := by
  have passive := manual.reachable.sound.passive manual.atRest.vacant
  have after := manual.settle
  have passiveAfter := after.reachable.sound.passive after.atRest.vacant
  obtain ⟨awake, finished⟩ := (passive.awake_settling
    (manual.atRest.idle ▸ Agenda.neat_empty)).drainSteps network.maxSteps drains
  refine ⟨fun key => awake.wakeable_iff finished, fun nothing => ?_, fun same again key found => ?_⟩
  · refine trees_settle_of_asleep after.atRest.idle fun key active unfinished => ?_
    exact (awake.asleep_or_overlooked finished active unfinished).resolve_right (nothing key)
  · exact passiveAfter.not_ready_of_trees_settle (after.atRest.idle ▸ Agenda.neat_empty) again same
      key (awake.ready_of_overlooked found)

/-- Edits a field where that can be done. -/
def edit (network : Network) (entity : EntityId) (key : Address) (value : Datum) : Network :=
  match network.editField entity key value with
  | .ok (_, later) => later
  | .error _ => network

theorem Manual.edit {network : Network} (manual : network.Manual) (entity : EntityId)
    (key : Address) (value : Datum) : (network.edit entity key value).Manual := by
  unfold Network.edit
  cases edited : network.editField entity key value with
  | error fault => exact manual
  | ok pair => exact manual.editField edited

/-- A key in the tree of those that wait. -/
def waiterKey (path : Path) : Address := ⟨⟨0, 0⟩, path⟩

/-- A key in the tree of an entity. -/
def sourceKey (path : Path) : Address := ⟨⟨1, 0⟩, path⟩

/-- Three keys below `a` wait for three sources, two of which wait for the third, which is
blocked. -/
def threads : Network :=
  let network := (((empty 64).create .plain).2.create (.data ⟨⟨1⟩, none⟩)).2
  let network := (network.wait (waiterKey ["a", "b"]) (sourceKey ["s"]) none).2
  let network := (network.wait (waiterKey ["a", "c"]) (sourceKey ["x"]) none).2
  let network := (network.wait (waiterKey ["a", "d"]) (sourceKey ["r"]) none).2
  let network := (network.wait (sourceKey ["s"]) (sourceKey ["x"]) none).2
  (network.wait (sourceKey ["r"]) (sourceKey ["x"]) none).2.block (sourceKey ["x"])

/-- All keys are active, and the sources that are not blocked were made known. -/
def tangle : Network :=
  let network := ((threads.activate (sourceKey ["x"])).activate (sourceKey ["s"])).activate
    (sourceKey ["r"])
  let network := ((network.activate (waiterKey ["a", "b"])).activate
    (waiterKey ["a", "c"])).activate (waiterKey ["a", "d"])
  ((network.activate (waiterKey ["a"])).edit ⟨1⟩ (sourceKey ["s"]) (.number 1)).edit ⟨1⟩
    (sourceKey ["r"]) (.number 1)

theorem manual_tangle : tangle.Manual := by
  have threads : threads.Manual := ((((((Manual.empty 64).create _ (by simp)).create _
    (by simp)).wait _ _ _).wait _ _ _).wait _ _ _).wait _ _ _ |>.wait _ _ _ |>.block _
  exact (((((((threads.activate _).activate _).activate _).activate _).activate _).activate
    _).activate _ |>.edit _ _ _).edit _ _ _

theorem settling_of_sorted {network : Network} (sorted : network.unsettled.Pairwise
    fun left right => (compare left right).isLE = true) :
    network.settling =
      network.updateAgenda fun agenda => network.unsettled.foldl Agenda.pushCheck agenda :=
  congrArg network.updateAgenda (funext fun _ => Agenda.pushChecks_of_sorted sorted)

theorem settling_tangle : tangle.settling =
    tangle.updateAgenda fun agenda => tangle.unsettled.foldl Agenda.pushCheck agenda :=
  settling_of_sorted (by decide +kernel)

theorem drainsWithin_tangle : drainsWithin tangle.maxSteps tangle.settling = true := by
  rw [settling_tangle]
  decide +kernel

/-- `d` is told first. The check of what is above it satisfies the edge of `b`, and `b` itself is
not looked at again. -/
theorem wakeable_tangle : tangle.settle.Wakeable (waiterKey ["a", "b"]) := by
  change tangle.settling.drain.Wakeable _
  rw [settling_tangle]
  exact ⟨by decide +kernel, by decide +kernel, by decide +kernel⟩

theorem overlooked_tangle :
    drainsWithin tangle.maxSteps tangle.settling = true ∧
    Overlooked (drainLooks tangle.settling) tangle.settle (waiterKey ["a", "b"]) := by
  obtain ⟨wakeable, -⟩ := manual_tangle.wakeable_settle_iff drainsWithin_tangle
  exact ⟨drainsWithin_tangle, (wakeable _).1 wakeable_tangle⟩

theorem not_forall_settled :
    ¬∀ network : Network, network.Manual → drainsWithin network.maxSteps network.settling = true →
      ∀ key, ¬network.settle.Wakeable key :=
  fun settled => settled tangle manual_tangle drainsWithin_tangle _ wakeable_tangle

end ConceptLaws.Propagation.Network
