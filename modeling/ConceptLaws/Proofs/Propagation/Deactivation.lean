import ConceptLaws.Proofs.Command.Ordering
import ConceptLaws.Proofs.Propagation.Attention

/-! Deactivation.
A deactivation takes down a section, unless an active key outside waits on it, and then what the
section waited on. It looks at active waiters only, and it leaves the keys above alone. So the
network stays in order if no inactive key holds a satisfied edge to what is taken down, and if
nothing that is taken down lies below an active key. -/

namespace ConceptLaws.Propagation

namespace Network

open Command (Request allLooks course_performAll)

/-! ## What is taken down -/

/-- An edge of a deactivated key is open, and the key held it before. -/
theorem waiting_deactivated {cell : Cell} {source : Address} {edge : Edge}
    (held : (Cell.deactivated cell).waiting[source]? = some edge) :
    edge.satisfied = false ∧ ∃ before, cell.waiting[source]? = some before := by
  simp only [Cell.deactivated, Std.ExtTreeMap.getElem?_map, Option.map_eq_some_iff] at held
  obtain ⟨before, present, rfl⟩ := held
  exact ⟨rfl, before, present⟩

theorem deactivated_deactivated (cell : Cell) :
    Cell.deactivated (Cell.deactivated cell) = Cell.deactivated cell := by
  have waiting : (cell.waiting.map fun _ edge => ({ edge with satisfied := false } : Edge)).map
      (fun _ edge => ({ edge with satisfied := false } : Edge)) =
        cell.waiting.map fun _ edge => { edge with satisfied := false } := by
    apply Std.ExtTreeMap.ext_getElem?
    intro source
    simp
  simp only [Cell.deactivated, waiting]

/-- Some keys were deactivated, and with the source of an edge its active waiter. -/
structure Lowers (network later : Network) : Prop where
  agenda : later.agenda = network.agenda
  arena : network.trees.Sound → later.trees.Sound
  issued : ∀ handle, network.trees.Issued handle → later.trees.Issued handle
  role : ∀ handle, (later.tree? handle).map Tree.role = (network.tree? handle).map Tree.role
  cell : ∀ key, later.cell? key = network.cell? key ∨
    later.cell? key = (network.cell? key).map Cell.deactivated
  guarded : ∀ waiter source cell, network.cell? source = some cell → waiter ∈ cell.triggers →
    network.isActive source = true → later.isActive source = false →
      network.isActive waiter = true → later.isActive waiter = false

theorem lowers_refl (network : Network) : network.Lowers network :=
  ⟨rfl, id, fun _ => id, fun _ => rfl, fun _ => Or.inl rfl,
    fun _ _ _ _ _ active inactive => by simp [active] at inactive⟩

/-- What is there afterwards was there before. -/
theorem Lowers.origin {network later : Network} (lowers : network.Lowers later) {key : Address}
    {cell : Cell} (found : later.cell? key = some cell) :
    ∃ before, network.cell? key = some before ∧
      (cell = before ∨ cell = Cell.deactivated before) := by
  rcases lowers.cell key with same | lowered
  · exact ⟨cell, same.symm.trans found, Or.inl rfl⟩
  · rw [lowered, Option.map_eq_some_iff] at found
    obtain ⟨before, present, rfl⟩ := found
    exact ⟨before, present, Or.inr rfl⟩

theorem Lowers.kept {network later : Network} (lowers : network.Lowers later) {key : Address}
    {before : Cell} (found : network.cell? key = some before) :
    ∃ cell, later.cell? key = some cell ∧ (cell = before ∨ cell = Cell.deactivated before) := by
  rcases lowers.cell key with same | lowered
  · exact ⟨before, same.trans found, Or.inl rfl⟩
  · exact ⟨Cell.deactivated before, by rw [lowered, found]; rfl, Or.inr rfl⟩

theorem isActive_iff {network : Network} {key : Address} : network.isActive key = true ↔
    ∃ cell, network.cell? key = some cell ∧ cell.active = true := by
  unfold isActive
  cases network.cell? key <;> simp

/-- A key that is still active is as it was. -/
theorem Lowers.cell?_of_active {network later : Network} (lowers : network.Lowers later)
    {key : Address} (active : later.isActive key = true) :
    later.cell? key = network.cell? key := by
  rcases lowers.cell key with same | lowered
  · exact same
  · obtain ⟨cell, found, raised⟩ := isActive_iff.1 active
    rw [lowered, Option.map_eq_some_iff] at found
    obtain ⟨before, -, rfl⟩ := found
    simp [Cell.deactivated] at raised

theorem Lowers.isActive {network later : Network} (lowers : network.Lowers later) {key : Address}
    (active : later.isActive key = true) : network.isActive key = true := by
  obtain ⟨cell, found, raised⟩ := isActive_iff.1 active
  exact isActive_iff.2 ⟨cell, (lowers.cell?_of_active active).symm.trans found, raised⟩

theorem Lowers.trans {first second third : Network} (earlier : first.Lowers second)
    (later : second.Lowers third) : first.Lowers third := by
  refine ⟨later.agenda.trans earlier.agenda, later.arena ∘ earlier.arena,
    fun handle => later.issued handle ∘ earlier.issued handle,
    fun handle => (later.role handle).trans (earlier.role handle), fun key => ?_,
    fun waiter source cell found member active inactive waits => ?_⟩
  · rcases earlier.cell key with same | lowered <;> rcases later.cell key with sameLater | again
    · exact Or.inl (sameLater.trans same)
    · exact Or.inr (by rw [again, same])
    · exact Or.inr (by rw [sameLater, lowered])
    · refine Or.inr ?_
      rw [again, lowered, Option.map_map]
      congr 1
      funext cell
      exact deactivated_deactivated cell
  · have stays : second.isActive waiter = false → third.isActive waiter = false := by
      intro asleep
      rw [← Bool.not_eq_true] at asleep ⊢
      exact fun awake => asleep (later.isActive awake)
    cases middle : second.isActive source with
    | false => exact stays (earlier.guarded waiter source cell found member active middle waits)
    | true =>
      cases awake : second.isActive waiter with
      | false => exact stays awake
      | true =>
        have same := (earlier.cell?_of_active middle).trans found
        exact later.guarded waiter source cell same member middle inactive awake

theorem lowers_foldl {α : Type} (step : Network → α → Network) (items : List α)
    (each : ∀ later : Network, ∀ item ∈ items, later.Lowers (step later item))
    (network : Network) : network.Lowers (items.foldl step network) := by
  induction items generalizing network with
  | nil => exact network.lowers_refl
  | cons first rest ih =>
    exact (each network first (List.mem_cons_self ..)).trans
      (ih (fun later item member => each later item (List.mem_cons_of_mem first member)) _)

/-! ## A section -/

/-- The keys at and below a key are deactivated. -/
def lowerSection (network : Network) (key : Address) (tree : Tree) : Network :=
  (tree.subtree key.path).foldl (fun network (path, _) =>
    network.updateCell ⟨key.tree, path⟩ Cell.deactivated) network

theorem lowerSection_eq {network : Network} {key : Address} {tree : Tree} :
    network.lowerSection key tree = network.updateTree key.tree fun before =>
      ((tree.subtree key.path).map Prod.fst).foldl
        (fun tree path => tree.update path Cell.deactivated) before := by
  rw [updateTree_foldl, List.foldl_map]
  rfl

theorem cell?_lowerSection {network : Network} {key : Address} {tree : Tree}
    (live : network.tree? key.tree = some tree) (query : Address) :
    (network.lowerSection key tree).cell? query =
      if query.tree = key.tree ∧ query.path.isWithin key.path = true
      then (network.cell? query).map Cell.deactivated else network.cell? query := by
  unfold cell?
  rw [lowerSection_eq, tree?_updateTree]
  by_cases same : query.tree = key.tree
  · rw [if_pos same, same, live]
    simp only [Option.map_some, Option.bind_eq_bind, Option.bind_some, true_and]
    rw [Tree.cell?_foldl_update _ deactivated_deactivated]
    cases found : tree.cell? query.path with
    | none => simp
    | some cell =>
      have listed : query.path ∈ (tree.subtree key.path).map Prod.fst ↔
          query.path.isWithin key.path = true := by
        simp [found]
      simp only [Option.map_some, listed]
      split <;> rfl
  · simp [same]

/-- An active waiter outside a section keeps it up. -/
theorem isNeeded_of_active {network : Network} {key source waiter : Address} {tree : Tree}
    {cell : Cell} (live : network.tree? key.tree = some tree)
    (found : network.cell? source = some cell) (member : waiter ∈ cell.triggers)
    (inside : source.tree = key.tree ∧ source.path.isWithin key.path = true)
    (outside : ¬(waiter.tree = key.tree ∧ waiter.path.isWithin key.path = true))
    (active : network.isActive waiter = true) :
    network.isNeeded key (tree.subtree key.path) = true := by
  obtain ⟨other, liveOther, present⟩ := cell?_eq_some_iff.1 found
  obtain rfl : tree = other := Option.some.inj (live.symm.trans (inside.1 ▸ liveOther))
  unfold isNeeded
  rw [List.any_eq_true]
  refine ⟨(source.path, cell), Tree.mem_subtree.2 ⟨present, inside.2⟩, ?_⟩
  rw [List.any_eq_true]
  refine ⟨waiter, Std.ExtTreeSet.mem_toList.2 member, ?_⟩
  simp only [active, Bool.and_true, Bool.not_eq_true', Bool.and_eq_false_imp, beq_iff_eq]
  intro sameTree
  rw [← Bool.not_eq_true]
  exact fun within => outside ⟨sameTree, within⟩

/-- A section on which no active key outside waits goes down as a whole. -/
theorem lowers_lowerSection {network : Network} {key : Address} {tree : Tree}
    (live : network.tree? key.tree = some tree)
    (unneeded : network.isNeeded key (tree.subtree key.path) = false) :
    network.Lowers (network.lowerSection key tree) := by
  have inactive : ∀ query : Address,
      query.tree = key.tree ∧ query.path.isWithin key.path = true →
        (network.lowerSection key tree).isActive query = false := by
    intro query inside
    unfold isActive
    rw [cell?_lowerSection live, if_pos inside]
    cases network.cell? query <;> simp [Cell.deactivated]
  refine ⟨?_, fun sound => ?_, fun handle issued => ?_, fun handle => ?_, fun query => ?_,
    fun waiter source cell found member active lowered waits => ?_⟩
  · rw [lowerSection_eq]
    rfl
  · rw [lowerSection_eq]
    exact sound.update _ _
  · rw [lowerSection_eq]
    exact issued.update _ _
  · rw [lowerSection_eq, tree?_updateTree]
    by_cases same : handle = key.tree
    · rw [if_pos same, same, Option.map_map]
      congr 1
      funext before
      exact Tree.role_foldl_update _ _ before
    · rw [if_neg same]
  · rw [cell?_lowerSection live]
    split
    · exact Or.inr rfl
    · exact Or.inl rfl
  · have inside : source.tree = key.tree ∧ source.path.isWithin key.path = true := by
      by_contra outside
      unfold isActive at lowered active
      rw [cell?_lowerSection live, if_neg outside] at lowered
      simp [active] at lowered
    by_cases along : waiter.tree = key.tree ∧ waiter.path.isWithin key.path = true
    · exact inactive waiter along
    · simp [isNeeded_of_active live found member inside along waits] at unneeded

theorem lowers_deactivateWithin (depth : Nat) (network : Network) (key : Address) :
    network.Lowers (network.deactivateWithin depth key).2 := by
  induction depth generalizing network key with
  | zero => exact network.lowers_refl
  | succ depth ih =>
    unfold deactivateWithin
    cases live : network.tree? key.tree with
    | none => exact network.lowers_refl
    | some tree =>
      dsimp only
      cases tree.cell? key.path with
      | none => exact network.lowers_refl
      | some cell =>
        dsimp only
        split
        · exact network.lowers_refl
        · split
          · exact network.lowers_refl
          · rename_i unneeded
            have lowered := lowers_lowerSection live (Bool.not_eq_true _ ▸ unneeded)
            exact lowered.trans (lowers_foldl _ _ (fun later source _ => ih later source) _)

theorem lowers_deactivate (network : Network) (key : Address) :
    network.Lowers (network.deactivate key).2 :=
  network.lowers_deactivateWithin _ key

/-! ## Careful deactivations -/

/-- Deactivating `key` deactivates an active key. -/
def TakesDown (network : Network) (key other : Address) : Prop :=
  network.isActive other = true ∧ (network.deactivate key).2.isActive other = false

/-- No inactive key holds a satisfied edge to a key that is taken down, and a key that is taken down
lies below no key that stays active, keys of variables apart. -/
structure Careful (network : Network) (key : Address) : Prop where
  held : ∀ waiter source, network.TakesDown key source → network.HasEdge waiter source true →
    network.isActive waiter = true
  whole : ∀ lower above tree, network.TakesDown key lower → lower.path.isWithin above = true →
    (network.deactivate key).2.isActive ⟨lower.tree, above⟩ = true →
      network.tree? lower.tree = some tree → tree.role.isVariables = true

theorem Lowers.trees {network later : Network} (lowers : network.Lowers later)
    (sound : network.Sound)
    (whole : ∀ lower above tree, network.isActive lower = true → later.isActive lower = false →
      lower.path.isWithin above = true → later.isActive ⟨lower.tree, above⟩ = true →
        network.tree? lower.tree = some tree → tree.role.isVariables = true)
    {handle : Handle} {tree : Tree} (live : later.tree? handle = some tree) : tree.Sound := by
  have roles := lowers.role handle
  rw [live, Option.map_some, eq_comm, Option.map_eq_some_iff] at roles
  obtain ⟨before, liveBefore, role⟩ := roles
  have soundBefore := sound.trees handle before liveBefore
  have origin : ∀ path cell, tree.cell? path = some cell → ∃ old, before.cell? path = some old ∧
      (cell = old ∨ cell = Cell.deactivated old) := by
    intro path cell found
    have foundLater : later.cell? ⟨handle, path⟩ = some cell :=
      cell?_eq_some_iff.2 ⟨tree, live, found⟩
    obtain ⟨old, foundOld, same⟩ := lowers.origin foundLater
    exact ⟨old, by simpa [cell?, liveBefore] using foundOld, same⟩
  refine ⟨fun path cell found above within => ?_, fun path cell found done => ?_,
    fun plain above upper path lower foundUpper raised within foundLower => ?_⟩
  · obtain ⟨old, foundOld, -⟩ := origin path cell found
    obtain ⟨higher, foundHigher⟩ :=
      Option.isSome_iff_exists.1 (soundBefore.rooted path old foundOld above within)
    have presentHigher : network.cell? ⟨handle, above⟩ = some higher :=
      cell?_eq_some_iff.2 ⟨before, liveBefore, foundHigher⟩
    obtain ⟨after, foundAfter, -⟩ := lowers.kept presentHigher
    simp only [cell?, live, Option.bind_eq_bind, Option.bind_some] at foundAfter
    simp [foundAfter]
  · obtain ⟨old, foundOld, rfl | rfl⟩ := origin path cell found
    · exact soundBefore.calm path cell foundOld done
    · simp [Cell.deactivated] at done
  · have plainBefore : before.role.isVariables = false := role ▸ plain
    have raisedLater : later.isActive ⟨handle, above⟩ = true :=
      isActive_iff.2 ⟨upper, cell?_eq_some_iff.2 ⟨tree, live, foundUpper⟩, raised⟩
    obtain ⟨oldUpper, foundOldUpper, raisedBefore⟩ := isActive_iff.1 (lowers.isActive raisedLater)
    obtain ⟨oldLower, foundOldLower, -⟩ := origin path lower foundLower
    simp only [cell?, liveBefore, Option.bind_eq_bind, Option.bind_some] at foundOldUpper
    have activeBefore := soundBefore.downward plainBefore above oldUpper path oldLower
      foundOldUpper raisedBefore within foundOldLower
    have foundLater : later.cell? ⟨handle, path⟩ = some lower :=
      cell?_eq_some_iff.2 ⟨tree, live, foundLower⟩
    rw [← Bool.not_eq_false]
    intro asleep
    have down := whole ⟨handle, path⟩ above before
      (isActive_iff.2 ⟨oldLower, cell?_eq_some_iff.2 ⟨before, liveBefore, foundOldLower⟩,
        activeBefore⟩) (by simp [Network.isActive, foundLater, asleep]) within raisedLater liveBefore
    simp [down] at plainBefore

/-- A satisfied edge that remains was held by an active key or leads to a key that stays as it was;
a waiter that is active goes down with its source. -/
theorem Sound.deactivate {network : Network} (sound : network.Sound)
    (quiet : network.agenda.events = []) {key : Address} (careful : network.Careful key) :
    (network.deactivate key).2.Sound := by
  have lowers := network.lowers_deactivate key
  have whole := careful.whole
  have held := careful.held
  unfold TakesDown at whole held
  generalize (network.deactivate key).2 = later at *
  refine ⟨⟨lowers.arena sound.arena, fun handle tree live =>
    lowers.trees sound (fun lower above tree up down => whole lower above tree ⟨up, down⟩) live⟩,
    fun waiter source done edged => ?_, fun waiter source member => ?_⟩
  · obtain ⟨cell, edge, found, waits, state⟩ := edged
    obtain ⟨before, foundBefore, same⟩ := lowers.origin found
    -- The edge was there; a satisfied one is held by a key that is as it was.
    have edgeBefore : ∃ old, network.HasEdge waiter source old ∧ (done = true → old = true) := by
      rcases same with rfl | rfl
      · exact ⟨done, ⟨cell, edge, foundBefore, waits, state⟩, id⟩
      · obtain ⟨unsatisfied, oldEdge, present⟩ := waiting_deactivated waits
        refine ⟨oldEdge.satisfied, ⟨before, oldEdge, foundBefore, present, rfl⟩, fun satisfied => ?_⟩
        simp [state, satisfied] at unsatisfied
    obtain ⟨old, oldHeld, satisfied⟩ := edgeBefore
    obtain ⟨issued, attached⟩ := sound.linked waiter source old oldHeld
    refine ⟨lowers.issued _ issued, fun live => ?_⟩
    have liveBefore : (network.tree? source.tree).isSome := by
      have roles := congrArg Option.isSome (lowers.role source.tree)
      simpa [live] using roles.symm
    obtain ⟨sourceCell, foundSource, member, propagated⟩ := attached liveBefore
    obtain ⟨after, foundAfter, rfl | rfl⟩ := lowers.kept foundSource
    · exact ⟨after, foundAfter, member, propagated ∘ satisfied⟩
    · refine ⟨_, foundAfter, member, fun isDone => ?_⟩
      have sourceDone := propagated (satisfied isDone)
      obtain ⟨tree, liveTree, present⟩ := cell?_eq_some_iff.1 foundSource
      have sourceActive : network.isActive source = true := isActive_iff.2
        ⟨sourceCell, foundSource, (sound.trees _ tree liveTree).calm _ _ present sourceDone⟩
      have sourceDown : later.isActive source = false := by
        simp [Network.isActive, foundAfter, Cell.deactivated]
      have waiterActive := held waiter source ⟨sourceActive, sourceDown⟩ (satisfied isDone ▸ oldHeld)
      have waiterDown := lowers.guarded waiter source sourceCell foundSource member sourceActive
        sourceDown waiterActive
      -- So the waiter was deactivated itself, and its edge is open.
      rcases same with rfl | rfl
      · obtain ⟨other, foundOther, raised⟩ := isActive_iff.1 waiterActive
        obtain rfl : cell = other := Option.some.inj (foundBefore.symm.trans foundOther)
        simp [Network.isActive, found, raised] at waiterDown
      · simp [← state, (waiting_deactivated waits).1] at isDone
  · rw [lowers.agenda, quiet] at member
    simp at member

/-! ## At rest -/

/-- A cascade leaves nothing on the agenda. -/
theorem events_drainSteps (steps : Nat) (network : Network) :
    (network.drainSteps steps).agenda.events = [] := by
  induction steps generalizing network with
  | zero =>
    unfold drainSteps
    cases taken : network.agenda.pop? with
    | none => exact Agenda.events_of_pop?_eq_none taken
    | some pair => rfl
  | succ steps ih =>
    unfold drainSteps
    cases taken : network.agenda.pop? with
    | none => exact Agenda.events_of_pop?_eq_none taken
    | some pair => exact ih _

theorem events_drain (network : Network) : network.drain.agenda.events = [] :=
  events_drainSteps network.maxSteps network

theorem events_setKnown {network : Network} (quiet : network.agenda.events = []) (key : Address)
    (recursive : Bool) : (network.setKnown drain key recursive).agenda.events = [] := by
  unfold setKnown
  split
  · exact quiet
  · exact events_drain _

theorem events_bindVariable {network : Network} (quiet : network.agenda.events = [])
    (variableTable : Handle) (name : String) (target : Address) :
    (network.bindVariable drain variableTable name target).agenda.events = [] := by
  unfold bindVariable
  split
  · exact events_setKnown (by exact quiet) _ _
  · exact quiet

/-- The networks that the operations lead to when keys are deactivated only where that is allowed.
-/
inductive Toggled (allowed : Network → Address → Prop) : Network → Prop
  | empty (maxSteps : Nat) : Toggled allowed (empty maxSteps)
  | create {network : Network} (before : Toggled allowed network) (role : Role) :
      Toggled allowed (network.create role).2
  | ensure {network : Network} (before : Toggled allowed network) (key : Address) :
      Toggled allowed (network.ensure key)
  | wait {network : Network} (before : Toggled allowed network) (waiter source : Address)
      (callback : Option Callback) : Toggled allowed (network.wait waiter source callback).2
  | block {network : Network} (before : Toggled allowed network) (key : Address) :
      Toggled allowed (network.block key)
  | know {network : Network} (before : Toggled allowed network) (key : Address)
      (recursive : Bool) : Toggled allowed (network.know key recursive)
  | bind {network : Network} (before : Toggled allowed network) (variableTable : Handle)
      (name : String) (target : Address) : Toggled allowed (network.bind variableTable name target)
  | activate {network : Network} (before : Toggled allowed network) (key : Address) :
      Toggled allowed (network.activate key)
  | deactivate {network : Network} (before : Toggled allowed network) {key : Address}
      (may : allowed network key) : Toggled allowed (network.deactivate key).2
  | checkResolved {network : Network} (before : Toggled allowed network) (key : Address)
      (probe : Bool) : Toggled allowed (network.checkResolved key probe).2
  | settle {network : Network} (before : Toggled allowed network) :
      Toggled allowed network.settle

theorem Toggled.quiet {allowed : Network → Address → Prop} {network : Network}
    (toggled : network.Toggled allowed) : network.agenda.events = [] := by
  induction toggled with
  | empty maxSteps => rfl
  | create _ role ih => exact ih
  | ensure _ key ih => exact ih
  | wait _ waiter source callback ih => exact events_drain _
  | block _ key ih => exact ih
  | know _ key recursive ih => exact events_setKnown ih key recursive
  | bind _ variableTable name target ih => exact events_bindVariable ih variableTable name target
  | activate _ key ih => exact events_drain _
  | @deactivate before _ key may ih =>
    rw [(before.lowers_deactivate key).agenda]
    exact ih
  | checkResolved _ key probe ih => exact events_drain _
  | settle _ ih => exact events_drain _

theorem Toggled.sound {network : Network} (toggled : network.Toggled Careful) :
    network.Sound := by
  induction toggled with
  | empty maxSteps => exact sound_empty maxSteps
  | create _ role ih => exact (ih.advances_create role).sound
  | ensure _ key ih => exact ih.tame (ih.tame_ensure key)
  | wait _ waiter source callback ih =>
    exact (ih.advances_waitOn waiter source callback).sound.drain
  | block _ key ih => exact (Command.advances_block ih key).sound
  | know _ key recursive ih => exact (ih.advances_setKnown orderly_drain key recursive).sound
  | bind _ variableTable name target ih =>
    exact (ih.advances_bindVariable orderly_drain variableTable name target).sound
  | activate _ key ih => exact (ih.tame (ih.tame_activateFrom key)).drain
  | deactivate before careful ih => exact ih.deactivate before.quiet careful
  | checkResolved _ key probe ih => exact ih.checkResolved key probe
  | settle _ ih => exact (ih.tame (ih.tame_pushChecks _)).drain

/-! ## Activating again -/

/-- The key and what is completed with it are active; unless the key is known, whatever it or an
exposed key below waits on has propagated. -/
structure Backed (network : Network) (key : Address) : Prop where
  active : network.isActive key = true
  followers : ∀ tree path, network.tree? key.tree = some tree →
    path ∈ (tree.following key.path).ready → network.isActive ⟨key.tree, path⟩ = true
  sources : ∀ tree path source, network.tree? key.tree = some tree → network.isKnown key = false →
    path.isWithin key.path = true → tree.Exposed key.path path →
      network.Waits ⟨key.tree, path⟩ source → (network.tree? source.tree).isSome →
        network.isPropagated source = true

theorem Sound.backed {network : Network} (sound : network.Sound) {key : Address}
    (ready : network.standing key = .ready) : network.Backed key := by
  obtain ⟨tree, cell, able, free⟩ := standing_eq_ready_iff.1 ready
  refine ⟨isActive_iff.2 ⟨cell, able.cell?_eq, able.active⟩, fun other path live member => ?_,
    fun other path source live unknown within exposed waits liveSource => ?_⟩
  · obtain rfl : tree = other := Option.some.inj (able.live.symm.trans live)
    obtain ⟨unknown, below, present, within, -⟩ := Tree.mem_ready_following member
    have plain : tree.role.isVariables = false := by
      refine (free.resolve_left fun known => ?_).1
      simp [able.found, known] at unknown
    exact isActive_iff.2 ⟨below, cell?_eq_some_iff.2 ⟨tree, live, present⟩,
      (sound.trees _ tree live).downward plain key.path cell path below able.found able.active
        within present⟩
  · obtain rfl : tree = other := Option.some.inj (able.live.symm.trans live)
    have dark : cell.known = false := by simpa [isKnown, able.cell?_eq] using unknown
    obtain ⟨same, liveSame, justified⟩ := justified_of_ready ready able.cell?_eq dark
    obtain rfl : tree = same := Option.some.inj (live.symm.trans liveSame)
    obtain ⟨done, holder, edge, found, held, state⟩ := waits
    obtain ⟨_, liveHolder, present⟩ := cell?_eq_some_iff.1 found
    obtain rfl := Option.some.inj (live.symm.trans liveHolder)
    have satisfied := justified.satisfied path holder source edge present within exposed held
    obtain ⟨sourceCell, foundSource, -, propagated⟩ :=
      (sound.linked _ source true ⟨holder, edge, found, held, satisfied⟩).2 liveSource
    exact isPropagated_iff.2 ⟨sourceCell, foundSource, propagated rfl⟩

theorem Run.backed {network later : Network} {looks : List Look} (run : Run network looks later)
    (sound : network.Sound) :
    ∀ look ∈ looks, look.answer = .ready → look.network.Backed look.key := by
  induction run with
  | refl => simp
  | step move _ ih =>
    intro look member answer
    rcases List.mem_append.1 member with here | after
    · cases move with
      | satisfy attached => simp at here
      | pass key unready =>
        obtain rfl := List.mem_singleton.1 here
        exact absurd answer unready
      | complete orderly ready =>
        obtain rfl := List.mem_singleton.1 here
        exact sound.backed ready
    · exact ih (move.advances sound).sound look after answer

theorem Course.backed {network later : Network} {looks : List Look}
    (course : Course network looks later) (sound : network.Sound) :
    ∀ look ∈ looks, look.answer = .ready → look.network.Backed look.key := by
  induction course with
  | refl => simp
  | run run _ ih =>
    intro look member answer
    rcases List.mem_append.1 member with here | after
    · exact run.backed sound look here answer
    · exact ih (run.advances sound).sound look after answer
  | tame tame _ ih => exact ih (sound.tame tame)

/-- With careful deactivations, keys that have propagated are active and satisfied edges lead to
keys that have propagated; and whatever is activated, settled or checked then, a key is completed
only when what it waits on has propagated again and when all that goes with it is active. -/
theorem Toggled.reactivation_sound {network : Network} (toggled : network.Toggled Careful) :
    (∀ key, network.isPropagated key = true → network.isActive key = true) ∧
    (∀ waiter source, network.HasEdge waiter source true → (network.tree? source.tree).isSome →
      network.isPropagated source = true) ∧
    ∀ (requests : List Request), ∀ look ∈ allLooks network requests, look.answer = .ready →
      look.network.Backed look.key := by
  have sound := toggled.sound
  refine ⟨fun key propagated => ?_, fun waiter source held live => ?_, fun requests =>
    (course_performAll requests sound).backed sound⟩
  · obtain ⟨cell, found, done⟩ := isPropagated_iff.1 propagated
    obtain ⟨tree, live, present⟩ := cell?_eq_some_iff.1 found
    exact isActive_iff.2 ⟨cell, found, (sound.trees _ tree live).calm key.path cell present done⟩
  · obtain ⟨cell, found, -, done⟩ := (sound.linked waiter source true held).2 live
    exact isPropagated_iff.2 ⟨cell, found, done rfl⟩

/-! ## A waiter and its source -/

/-- A test that every key passes. -/
def allCells (network : Network) (test : Cell → Bool) : Bool :=
  network.trees.entries.all fun entry => entry.2.keys.toList.all fun pair => test pair.2

theorem test_of_allCells {network : Network} {test : Cell → Bool}
    (passed : network.allCells test = true) {key : Address} {cell : Cell}
    (found : network.cell? key = some cell) : test cell = true := by
  obtain ⟨tree, live, present⟩ := cell?_eq_some_iff.1 found
  unfold allCells at passed
  rw [List.all_eq_true] at passed
  have tested := passed (key.tree, tree) (Arena.mem_entries.2 live)
  rw [List.all_eq_true] at tested
  exact tested (key.path, cell) (Std.ExtTreeMap.mem_toList_iff_getElem?_eq_some.2 present)

/-- A key of the first tree waits on one of the second. -/
def paired : Network :=
  (((empty 16).create .plain).2.create .plain |>.2).wait ⟨⟨0, 0⟩, ["w"]⟩ ⟨⟨1, 0⟩, ["s"]⟩ none |>.2

/-- The waiter is activated and deactivated. -/
def rested : Network :=
  ((paired.activate ⟨⟨0, 0⟩, ["w"]⟩).deactivate ⟨⟨0, 0⟩, ["w"]⟩).2

theorem toggled_paired (allowed : Network → Address → Prop) : paired.Toggled allowed :=
  (((Toggled.empty 16).create .plain).create .plain).wait ⟨⟨0, 0⟩, ["w"]⟩ ⟨⟨1, 0⟩, ["s"]⟩ none

theorem careful_paired : (paired.activate ⟨⟨0, 0⟩, ["w"]⟩).Careful ⟨⟨0, 0⟩, ["w"]⟩ := by
  have waiters : (paired.activate ⟨⟨0, 0⟩, ["w"]⟩).allCells
      (fun cell => cell.waiting.isEmpty || cell.active) = true := by
    rw [activate_eq]
    decide +kernel
  have asleep : ((paired.activate ⟨⟨0, 0⟩, ["w"]⟩).deactivate ⟨⟨0, 0⟩, ["w"]⟩).2.allCells
      (fun cell => !cell.active) = true := by
    rw [activate_eq]
    decide +kernel
  refine ⟨fun waiter source _ held => ?_, fun lower above tree _ _ active => ?_⟩
  · obtain ⟨cell, edge, found, waits, -⟩ := held
    have tested := test_of_allCells waiters found
    rw [Bool.or_eq_true, Std.ExtTreeMap.isEmpty_iff] at tested
    refine isActive_iff.2 ⟨cell, found, tested.resolve_left fun bare => ?_⟩
    simp [bare] at waits
  · obtain ⟨cell, found, raised⟩ := isActive_iff.1 active
    simpa [raised] using test_of_allCells asleep found

/-- Activated again, the waiter completes after its source. -/
theorem reactivation_sound_rested :
    rested.isPropagated ⟨⟨1, 0⟩, ["s"]⟩ = false ∧
    (rested.activate ⟨⟨0, 0⟩, ["w"]⟩).isActive ⟨⟨0, 0⟩, ["w"]⟩ = true ∧
    (rested.activate ⟨⟨0, 0⟩, ["w"]⟩).isPropagated ⟨⟨1, 0⟩, ["s"]⟩ = true ∧
    ∀ look ∈ allLooks rested [.activate ⟨⟨0, 0⟩, ["w"]⟩], look.answer = .ready →
      look.network.Backed look.key := by
  have toggled : rested.Toggled Careful :=
    ((toggled_paired Careful).activate ⟨⟨0, 0⟩, ["w"]⟩).deactivate careful_paired
  have woken := toggled.activate ⟨⟨0, 0⟩, ["w"]⟩
  have lowered : rested.isPropagated ⟨⟨1, 0⟩, ["s"]⟩ = false := by
    simp only [rested, activate_eq]
    decide +kernel
  have completed : (rested.activate ⟨⟨0, 0⟩, ["w"]⟩).isPropagated ⟨⟨0, 0⟩, ["w"]⟩ = true := by
    simp only [rested, activate_eq]
    decide +kernel
  have satisfied : (rested.activate ⟨⟨0, 0⟩, ["w"]⟩).edge? ⟨⟨0, 0⟩, ["w"]⟩ ⟨⟨1, 0⟩, ["s"]⟩ =
      some ⟨true, none⟩ := by
    simp only [rested, activate_eq]
    decide +kernel
  have live : ((rested.activate ⟨⟨0, 0⟩, ["w"]⟩).tree? ⟨1, 0⟩).isSome = true := by
    simp only [rested, activate_eq]
    decide +kernel
  obtain ⟨cell, found, held⟩ := edge?_eq_some_iff.1 satisfied
  exact ⟨lowered, woken.reactivation_sound.1 _ completed,
    woken.reactivation_sound.2.1 _ _ ⟨cell, _, found, held, rfl⟩ live,
    toggled.reactivation_sound.2.2 _⟩

/-- The source is activated alone, deactivated and blocked; the waiter keeps its satisfied edge and
is activated then. -/
def hasty : Network :=
  (((paired.activate ⟨⟨1, 0⟩, ["s"]⟩).deactivate ⟨⟨1, 0⟩, ["s"]⟩).2.block
    ⟨⟨1, 0⟩, ["s"]⟩).activate ⟨⟨0, 0⟩, ["w"]⟩

/-- A key below the waiter is deactivated while the waiter, which is active, waits for its source;
then the source becomes known. -/
def swept : Network :=
  let network := (paired.wait ⟨⟨1, 0⟩, ["s"]⟩ ⟨⟨1, 0⟩, ["t"]⟩ none).2.ensure ⟨⟨0, 0⟩, ["w", "b"]⟩
  let network := (network.block ⟨⟨1, 0⟩, ["t"]⟩).activate ⟨⟨0, 0⟩, ["w"]⟩
  (network.deactivate ⟨⟨0, 0⟩, ["w", "b"]⟩).2.know ⟨⟨1, 0⟩, ["s"]⟩ false

/-- With other deactivations a waiter completes though its source has not propagated again, and a
key that is not active is completed with the key above. -/
theorem not_forall_reactivation_sound :
    (¬ ∀ network : Network, network.Toggled (fun _ _ => True) → ∀ waiter source,
      network.HasEdge waiter source true → network.isPropagated waiter = true →
        (network.tree? source.tree).isSome → network.isPropagated source = true) ∧
    ¬ ∀ network : Network, network.Toggled (fun _ _ => True) → ∀ key,
      network.isPropagated key = true → network.isActive key = true := by
  constructor
  · intro always
    have toggled : hasty.Toggled fun _ _ => True :=
      ((((toggled_paired _).activate _).deactivate trivial).block _).activate _
    have satisfied : hasty.edge? ⟨⟨0, 0⟩, ["w"]⟩ ⟨⟨1, 0⟩, ["s"]⟩ = some ⟨true, none⟩ := by
      simp only [hasty, activate_eq]
      decide +kernel
    have states : hasty.isPropagated ⟨⟨0, 0⟩, ["w"]⟩ = true ∧
        (hasty.tree? ⟨1, 0⟩).isSome = true ∧ hasty.isPropagated ⟨⟨1, 0⟩, ["s"]⟩ = false := by
      simp only [hasty, activate_eq]
      decide +kernel
    obtain ⟨cell, found, held⟩ := edge?_eq_some_iff.1 satisfied
    obtain ⟨completed, live, missing⟩ := states
    simp [always hasty toggled _ _ ⟨cell, _, found, held, rfl⟩ completed live] at missing
  · intro always
    have toggled : swept.Toggled fun _ _ => True :=
      ((((((toggled_paired _).wait _ _ _).ensure _).block _).activate _).deactivate trivial).know _ _
    have states : swept.isPropagated ⟨⟨0, 0⟩, ["w", "b"]⟩ = true ∧
        swept.isActive ⟨⟨0, 0⟩, ["w", "b"]⟩ = false := by
      simp only [swept, activate_eq]
      decide +kernel
    simp [always swept toggled _ states.1] at states

end Network

end ConceptLaws.Propagation
