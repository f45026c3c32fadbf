import ConceptLaws.Proofs.Propagation.Network

/-! Networks in order.
What every state of a network keeps: keys that have propagated are active, activity reaches down to
the leaves, edges and triggers belong together, and satisfied edges lead to keys that have
propagated. A network evolves by gaining marks and edges; only keys that take part in no edge may
go. -/

namespace ConceptLaws.Propagation

/-! ## Cells -/

namespace Cell

/-- The cells differ in nothing but their values and their activity. -/
structure Carries (cell later : Cell) : Prop where
  known : later.known = cell.known
  propagated : later.propagated = cell.propagated
  blocked : later.blocked = cell.blocked
  waiting : later.waiting = cell.waiting
  triggers : later.triggers = cell.triggers

/-- The cells differ in nothing but their values. -/
structure SameState (cell later : Cell) : Prop extends cell.Carries later where
  active : later.active = cell.active

/-- The cells differ in nothing but their values and in what frees or bars them. -/
structure SameFlow (cell later : Cell) : Prop where
  active : later.active = cell.active
  propagated : later.propagated = cell.propagated
  waiting : later.waiting = cell.waiting
  triggers : later.triggers = cell.triggers

/-- A key of which nothing is known yet. -/
structure Bare (cell : Cell) : Prop where
  known : cell.known = false
  propagated : cell.propagated = false
  blocked : cell.blocked = false
  waiting : cell.waiting = ∅
  triggers : cell.triggers = ∅

theorem bare_fresh (active : Bool) : (fresh active).Bare := ⟨rfl, rfl, rfl, rfl, rfl⟩

theorem carries_refl (cell : Cell) : cell.Carries cell := ⟨rfl, rfl, rfl, rfl, rfl⟩

theorem Carries.trans {first second third : Cell} (earlier : first.Carries second)
    (later : second.Carries third) : first.Carries third :=
  ⟨later.known.trans earlier.known, later.propagated.trans earlier.propagated,
    later.blocked.trans earlier.blocked, later.waiting.trans earlier.waiting,
    later.triggers.trans earlier.triggers⟩

theorem Bare.carry {cell later : Cell} (bare : cell.Bare) (carries : cell.Carries later) :
    later.Bare :=
  ⟨carries.known.trans bare.known, carries.propagated.trans bare.propagated,
    carries.blocked.trans bare.blocked, carries.waiting.trans bare.waiting,
    carries.triggers.trans bare.triggers⟩

/-- Marks, edges and triggers are only ever gained. -/
structure Grows (cell later : Cell) : Prop where
  active : cell.active = true → later.active = true
  propagated : cell.propagated = true → later.propagated = true
  waiting : ∀ (source : Address) (edge : Edge), cell.waiting[source]? = some edge →
    ∃ after, later.waiting[source]? = some after ∧ (edge.satisfied = true → after.satisfied = true)
  triggers : ∀ waiter ∈ cell.triggers, waiter ∈ later.triggers

theorem grows_refl (cell : Cell) : cell.Grows cell :=
  ⟨id, id, fun _ edge found => ⟨edge, found, id⟩, fun _ => id⟩

theorem Grows.trans {first second third : Cell} (earlier : first.Grows second)
    (later : second.Grows third) : first.Grows third := by
  refine ⟨later.active ∘ earlier.active, later.propagated ∘ earlier.propagated, ?_,
    fun waiter member => later.triggers waiter (earlier.triggers waiter member)⟩
  intro source edge found
  obtain ⟨middle, foundMiddle, satisfied⟩ := earlier.waiting source edge found
  obtain ⟨after, foundAfter, satisfiedAfter⟩ := later.waiting source middle foundMiddle
  exact ⟨after, foundAfter, satisfiedAfter ∘ satisfied⟩

theorem Carries.grows {cell later : Cell} (carries : cell.Carries later)
    (active : cell.active = true → later.active = true) : cell.Grows later := by
  refine ⟨active, carries.propagated.trans, fun source edge found => ?_, ?_⟩
  · exact ⟨edge, by rw [carries.waiting, found], id⟩
  · rw [carries.triggers]
    exact fun _ => id

theorem SameFlow.grows {cell later : Cell} (same : cell.SameFlow later) : cell.Grows later := by
  refine ⟨same.active.trans, same.propagated.trans, fun source edge found => ?_, ?_⟩
  · exact ⟨edge, by rw [same.waiting, found], id⟩
  · rw [same.triggers]
    exact fun _ => id

/-- An unlinked key holds no edge and no trigger. -/
theorem isUnlinked_iff {cell : Cell} : cell.isUnlinked = true ↔
    (∀ source : Address, cell.waiting[source]? = none) ∧
      ∀ waiter : Address, waiter ∉ cell.triggers := by
  unfold isUnlinked
  simp only [Bool.and_eq_true, Std.ExtTreeMap.isEmpty_iff, Std.ExtTreeSet.isEmpty_iff,
    Std.ExtTreeMap.eq_empty_iff_forall_not_mem, Std.ExtTreeSet.eq_empty_iff_forall_not_mem,
    Std.ExtTreeMap.mem_iff_isSome_getElem?, Option.not_isSome_iff_eq_none]

theorem Grows.unlinked {cell later : Cell} (grows : cell.Grows later)
    (unlinked : later.isUnlinked = true) : cell.isUnlinked = true := by
  rw [isUnlinked_iff] at unlinked ⊢
  refine ⟨fun source => Option.eq_none_iff_forall_ne_some.2 fun edge found => ?_,
    fun waiter member => unlinked.2 waiter (grows.triggers waiter member)⟩
  obtain ⟨after, present, -⟩ := grows.waiting source edge found
  simp [unlinked.1 source] at present

end Cell

/-! ## Trees -/

namespace Tree

/-- The keys that have propagated are active, and what stands below an active key is active. Keys of
variables are activated one by one. -/
structure Sound (tree : Tree) : Prop where
  rooted : tree.Rooted
  calm : ∀ path cell, tree.cell? path = some cell → cell.propagated = true → cell.active = true
  downward : tree.role.isVariables = false → ∀ above upper path lower,
    tree.cell? above = some upper → upper.active = true → path.isWithin above = true →
      tree.cell? path = some lower → lower.active = true

theorem sound_ofRole (role : Role) : (ofRole role).Sound := by
  refine ⟨rooted_ofRole role, fun path cell found => ?_, fun _ above upper _ _ found => ?_⟩ <;>
  · rw [cell?_ofRole] at found
    split at found
    · obtain rfl := Option.some.inj found
      simp [Cell.fresh]
    · simp at found

theorem Sound.ensure {tree : Tree} (sound : tree.Sound) (path : Path) :
    (tree.ensure path).Sound := by
  refine ⟨sound.rooted.ensure path, fun query cell found done => ?_,
    fun plain above upper query lower foundUpper active within foundLower => ?_⟩
  · rcases cell?_of_ensure sound.rooted found with old | ⟨-, -, rfl⟩
    · exact sound.calm query cell old done
    · simp [Cell.fresh] at done
  · have down := sound.downward plain
    rcases cell?_of_ensure sound.rooted foundLower with oldLower | ⟨absent, below, rfl⟩
    · rcases cell?_of_ensure sound.rooted foundUpper with oldUpper | ⟨absentUpper, -, -⟩
      · exact down above upper query lower oldUpper active within oldLower
      · have present := sound.rooted query lower oldLower above within
        simp [absentUpper] at present
    · rcases cell?_of_ensure sound.rooted foundUpper with oldUpper | ⟨-, -, rfl⟩
      · exact inheritsActive_of_active (Path.isWithin_trans below within) oldUpper
          fun middle lower inside found =>
            down above upper middle lower oldUpper active inside found
      · exact active

/-- A change that leaves the activity of a key alone. -/
theorem Sound.update {tree : Tree} (sound : tree.Sound) (path : Path) (change : Cell → Cell)
    (active : ∀ cell, (change cell).active = cell.active)
    (calm : ∀ cell, tree.cell? path = some cell → (change cell).propagated = true →
      cell.active = true) : (tree.update path change).Sound := by
  have before : ∀ query cell, (tree.update path change).cell? query = some cell →
      ∃ old, tree.cell? query = some old ∧ cell.active = old.active ∧
        (cell.propagated = true → old.active = true) := by
    intro query cell found
    rw [cell?_update] at found
    by_cases same : query = path
    · rw [if_pos same, Option.map_eq_some_iff] at found
      obtain ⟨old, present, rfl⟩ := found
      exact ⟨old, same ▸ present, active old, calm old present⟩
    · rw [if_neg same] at found
      exact ⟨cell, found, rfl, sound.calm query cell found⟩
  refine ⟨sound.rooted.update path change, fun query cell found done => ?_,
    fun plain above upper query lower foundUpper raised within foundLower => ?_⟩
  · obtain ⟨old, -, same, settled⟩ := before query cell found
    rw [same]
    exact settled done
  · obtain ⟨oldUpper, presentUpper, sameUpper, -⟩ := before above upper foundUpper
    obtain ⟨oldLower, presentLower, sameLower, -⟩ := before query lower foundLower
    rw [sameLower]
    exact sound.downward plain above oldUpper query oldLower presentUpper (sameUpper ▸ raised)
      within presentLower

/-- A key of variables is activated alone. -/
theorem Sound.updateVariable {tree : Tree} (sound : tree.Sound) (path : Path)
    (tabled : tree.role.isVariables = true) :
    (tree.update path fun cell => { cell with active := true }).Sound := by
  refine ⟨sound.rooted.update path _, fun query cell found done => ?_, fun plain => ?_⟩
  · rw [cell?_update] at found
    by_cases same : query = path
    · rw [if_pos same, Option.map_eq_some_iff] at found
      obtain ⟨old, -, rfl⟩ := found
      rfl
    · rw [if_neg same] at found
      exact sound.calm query cell found done
  · rw [role_update, tabled] at plain
    simp at plain

theorem Sound.raise {tree : Tree} (sound : tree.Sound) (top : Path) : (tree.raise top).Sound := by
  have before : ∀ query cell, (tree.raise top).cell? query = some cell →
      ∃ old, tree.cell? query = some old ∧ cell.propagated = old.propagated ∧
        (cell.active = true ↔ query.isWithin top = true ∨ old.active = true) := by
    intro query cell found
    rw [cell?_raise, Option.map_eq_some_iff] at found
    obtain ⟨old, present, rfl⟩ := found
    refine ⟨old, present, ?_⟩
    by_cases within : query.isWithin top = true <;> simp [within]
  refine ⟨fun query cell found above within => ?_, fun query cell found done => ?_,
    fun plain above upper query lower foundUpper raised within foundLower => ?_⟩
  · obtain ⟨old, present, -⟩ := before query cell found
    rw [cell?_raise, Option.isSome_map]
    exact sound.rooted query old present above within
  · obtain ⟨old, present, same, active⟩ := before query cell found
    exact active.2 (Or.inr (sound.calm query old present (same ▸ done)))
  · obtain ⟨oldUpper, presentUpper, -, activeUpper⟩ := before above upper foundUpper
    obtain ⟨oldLower, presentLower, -, activeLower⟩ := before query lower foundLower
    rw [activeLower]
    rcases activeUpper.1 raised with inside | old
    · exact Or.inl (Path.isWithin_trans within inside)
    · exact Or.inr (sound.downward plain above oldUpper query oldLower presentUpper old within
        presentLower)

/-- A key that has no keys below it can go. -/
theorem Sound.erase {tree : Tree} (sound : tree.Sound) {path : Path}
    (leaf : ∀ query cell, tree.cell? query = some cell → query.isWithin path = true →
      query = path) : (tree.erase path).Sound := by
  have before : ∀ query cell, (tree.erase path).cell? query = some cell →
      tree.cell? query = some cell ∧ ¬(query = path ∧ path ≠ Path.root) := by
    intro query cell found
    rw [cell?_erase] at found
    by_cases gone : query = path ∧ path ≠ Path.root
    · simp [gone.2, gone.1] at found
    · rw [if_neg gone] at found
      exact ⟨found, gone⟩
  refine ⟨fun query cell found above within => ?_, fun query cell found => ?_,
    fun plain above upper query lower foundUpper raised within foundLower => ?_⟩
  · obtain ⟨present, stays⟩ := before query cell found
    rw [cell?_erase, if_neg]
    · exact sound.rooted query cell present above within
    · rintro ⟨rfl, lower⟩
      exact stays ⟨leaf query cell present within, lower⟩
  · exact sound.calm query cell (before query cell found).1
  · rw [role_erase] at plain
    exact sound.downward plain above upper query lower (before above upper foundUpper).1 raised
      within (before query lower foundLower).1

end Tree

/-! ## Networks -/

namespace Network

/-- `waiter` holds an edge to `source`. -/
def HasEdge (network : Network) (waiter source : Address) (satisfied : Bool) : Prop :=
  ∃ cell edge, network.cell? waiter = some cell ∧ cell.waiting[source]? = some edge ∧
    edge.satisfied = satisfied

/-- `waiter` is told when `source` propagates, unless the tree of the source is gone; with `done`
the source has propagated. -/
def Attached (network : Network) (waiter source : Address) (done : Bool) : Prop :=
  network.trees.Issued source.tree ∧ ((network.tree? source.tree).isSome →
    ∃ cell, network.cell? source = some cell ∧ waiter ∈ cell.triggers ∧
      (done = true → cell.propagated = true))

/-- The trees are in order, each by itself. -/
structure Founded (network : Network) : Prop where
  arena : network.trees.Sound
  trees : ∀ handle tree, network.tree? handle = some tree → tree.Sound

/-- Every edge, and every event that will satisfy one, is attached to its source. -/
structure Sound (network : Network) : Prop extends network.Founded where
  linked : ∀ waiter source done, network.HasEdge waiter source done →
    network.Attached waiter source done
  queued : ∀ waiter source, Event.resolve waiter source ∈ network.agenda.events →
    network.Attached waiter source true

theorem Founded.rooted {network : Network} (founded : network.Founded) : network.Rooted :=
  fun handle tree live => (founded.trees handle tree live).rooted

theorem sound_empty (maxSteps : Nat) : (empty maxSteps).Sound := by
  have vacant : ∀ handle, (empty maxSteps).tree? handle = none := fun _ => rfl
  have bare : ∀ key, (empty maxSteps).cell? key = none := fun _ => rfl
  refine ⟨⟨Arena.sound_empty, fun handle tree live => ?_⟩, fun waiter source done held => ?_,
    fun waiter source member => ?_⟩
  · simp [vacant] at live
  · obtain ⟨cell, edge, found, -⟩ := held
    simp [bare] at found
  · simp [empty, Agenda.empty] at member

/-- Later networks: trees stay, and so do the roots and all keys that take part in edges. -/
structure Evolves (network later : Network) : Prop where
  issued : ∀ handle, network.trees.Issued handle → later.trees.Issued handle
  stale : ∀ handle, network.trees.Issued handle → network.tree? handle = none →
    later.tree? handle = none
  live : ∀ handle tree, network.tree? handle = some tree →
    ∃ after, later.tree? handle = some after ∧ after.role.isVariables = tree.role.isVariables
  kept : ∀ key cell, network.cell? key = some cell →
    key.path = Path.root ∨ cell.isUnlinked = false →
      ∃ after, later.cell? key = some after ∧ cell.Grows after

theorem evolves_refl (network : Network) : network.Evolves network :=
  ⟨fun _ => id, fun _ _ => id, fun _ tree live => ⟨tree, live, rfl⟩,
    fun _ cell found _ => ⟨cell, found, cell.grows_refl⟩⟩

/-- Only the trees matter. -/
theorem evolves_of_trees {network later : Network} (trees : later.trees = network.trees) :
    network.Evolves later := by
  obtain ⟨otherTrees, agenda, maxSteps, counts, changed⟩ := later
  obtain rfl : otherTrees = network.trees := trees
  exact ⟨fun _ => id, fun _ _ => id, fun _ tree live => ⟨tree, live, rfl⟩,
    fun _ cell found _ => ⟨cell, found, cell.grows_refl⟩⟩

theorem Evolves.trans {first second third : Network} (earlier : first.Evolves second)
    (later : second.Evolves third) : first.Evolves third := by
  refine ⟨fun handle => later.issued handle ∘ earlier.issued handle, fun handle issued stale => ?_,
    fun handle tree live => ?_, fun key cell found stays => ?_⟩
  · exact later.stale handle (earlier.issued handle issued) (earlier.stale handle issued stale)
  · obtain ⟨middle, liveMiddle, sameMiddle⟩ := earlier.live handle tree live
    obtain ⟨after, liveAfter, sameAfter⟩ := later.live handle middle liveMiddle
    exact ⟨after, liveAfter, sameAfter.trans sameMiddle⟩
  · obtain ⟨middle, foundMiddle, growsMiddle⟩ := earlier.kept key cell found stays
    have staysMiddle : key.path = Path.root ∨ middle.isUnlinked = false := by
      refine stays.imp_right fun linked => ?_
      rw [← Bool.not_eq_true] at linked ⊢
      exact fun unlinked => linked (growsMiddle.unlinked unlinked)
    obtain ⟨after, foundAfter, growsAfter⟩ := later.kept key middle foundMiddle staysMiddle
    exact ⟨after, foundAfter, growsMiddle.trans growsAfter⟩

theorem Attached.evolve {network later : Network} {waiter source : Address} {done : Bool}
    (attached : network.Attached waiter source done) (evolves : network.Evolves later) :
    later.Attached waiter source done := by
  obtain ⟨issued, held⟩ := attached
  refine ⟨evolves.issued _ issued, fun live => ?_⟩
  have before : (network.tree? source.tree).isSome := by
    cases gone : network.tree? source.tree with
    | some tree => rfl
    | none => simp [evolves.stale _ issued gone] at live
  obtain ⟨cell, found, member, propagated⟩ := held before
  have linked : cell.isUnlinked = false := by
    rw [← Bool.not_eq_true, Cell.isUnlinked_iff]
    exact fun unlinked => unlinked.2 waiter member
  obtain ⟨after, foundAfter, grows⟩ := evolves.kept source cell found (Or.inr linked)
  exact ⟨after, foundAfter, grows.triggers waiter member, grows.propagated ∘ propagated⟩

/-- In a later network, only what is new has to be shown to be attached. -/
theorem Sound.evolve {network later : Network} (sound : network.Sound)
    (evolves : network.Evolves later) (founded : later.Founded)
    (edges : ∀ waiter source done, later.HasEdge waiter source done →
      network.HasEdge waiter source done ∨ later.Attached waiter source done)
    (events : ∀ waiter source, Event.resolve waiter source ∈ later.agenda.events →
      Event.resolve waiter source ∈ network.agenda.events ∨
        later.Attached waiter source true) : later.Sound := by
  refine ⟨founded, fun waiter source done held => ?_, fun waiter source member => ?_⟩
  · exact (edges waiter source done held).elim
      (fun old => (sound.linked waiter source done old).evolve evolves) id
  · exact (events waiter source member).elim
      (fun old => (sound.queued waiter source old).evolve evolves) id

theorem Founded.of_trees {network later : Network} (founded : network.Founded)
    (trees : later.trees = network.trees) : later.Founded := by
  obtain ⟨otherTrees, agenda, maxSteps, counts, changed⟩ := later
  obtain rfl : otherTrees = network.trees := trees
  exact ⟨founded.arena, founded.trees⟩

/-! ## Changes of one tree -/

theorem Founded.updateTree {network : Network} (founded : network.Founded) {handle : Handle}
    {change : Tree → Tree}
    (sound : ∀ tree, network.tree? handle = some tree → (change tree).Sound) :
    (network.updateTree handle change).Founded := by
  refine ⟨founded.arena.update handle change, fun query tree live => ?_⟩
  rw [tree?_updateTree] at live
  by_cases same : query = handle
  · rw [if_pos same, Option.map_eq_some_iff] at live
    obtain ⟨before, liveBefore, rfl⟩ := live
    exact sound before liveBefore
  · rw [if_neg same] at live
    exact founded.trees query tree live

theorem evolves_updateTree {network : Network} {handle : Handle} {change : Tree → Tree}
    (role : ∀ tree, network.tree? handle = some tree →
      (change tree).role.isVariables = tree.role.isVariables)
    (kept : ∀ tree path cell, network.tree? handle = some tree → tree.cell? path = some cell →
      path = Path.root ∨ cell.isUnlinked = false →
        ∃ after, (change tree).cell? path = some after ∧ cell.Grows after) :
    network.Evolves (network.updateTree handle change) := by
  refine ⟨fun query issued => issued.update handle change, fun query _ stale => ?_,
    fun query tree live => ?_, fun key cell found stays => ?_⟩
  · rw [tree?_updateTree]
    by_cases same : query = handle
    · rw [if_pos same, ← same, stale]
      rfl
    · rw [if_neg same, stale]
  · rw [tree?_updateTree]
    by_cases same : query = handle
    · rw [if_pos same, ← same, live]
      exact ⟨change tree, rfl, role tree (same ▸ live)⟩
    · rw [if_neg same]
      exact ⟨tree, live, rfl⟩
  · obtain ⟨tree, live, present⟩ := cell?_eq_some_iff.1 found
    by_cases same : key.tree = handle
    · subst same
      obtain ⟨after, presentAfter, grows⟩ := kept tree key.path cell live present stays
      refine ⟨after, cell?_eq_some_iff.2 ⟨change tree, ?_, presentAfter⟩, grows⟩
      simp [live]
    · refine ⟨cell, cell?_eq_some_iff.2 ⟨tree, ?_, present⟩, cell.grows_refl⟩
      simpa [same] using live

/-! ## Changes of one key -/

theorem Founded.updateCell {network : Network} (founded : network.Founded) {key : Address}
    {change : Cell → Cell} (active : ∀ cell, (change cell).active = cell.active)
    (calm : ∀ cell, network.cell? key = some cell → (change cell).propagated = true →
      cell.active = true) : (network.updateCell key change).Founded :=
  founded.updateTree fun tree live => (founded.trees _ tree live).update key.path change active
    fun cell found => calm cell (cell?_eq_some_iff.2 ⟨tree, live, found⟩)

theorem evolves_updateCell {network : Network} {key : Address} {change : Cell → Cell}
    (grows : ∀ cell, network.cell? key = some cell → cell.Grows (change cell)) :
    network.Evolves (network.updateCell key change) := by
  refine evolves_updateTree (fun tree _ => by rw [Tree.role_update])
    fun tree path cell live found _ => ?_
  rw [Tree.cell?_update]
  by_cases same : path = key.path
  · subst same
    exact ⟨change cell, by simp [found], grows cell (cell?_eq_some_iff.2 ⟨tree, live, found⟩)⟩
  · exact ⟨cell, by simpa [same] using found, cell.grows_refl⟩

/-- An edge after a change was there before, or it is one that the change makes. -/
theorem hasEdge_updateCell {network : Network} {key : Address} {change : Cell → Cell}
    {waiter source : Address} {done : Bool}
    (held : (network.updateCell key change).HasEdge waiter source done) :
    network.HasEdge waiter source done ∨ waiter = key ∧ ∃ cell edge,
      network.cell? key = some cell ∧ (change cell).waiting[source]? = some edge ∧
        edge.satisfied = done := by
  obtain ⟨cell, edge, found, waits, state⟩ := held
  rw [cell?_updateCell] at found
  by_cases same : waiter = key
  · rw [if_pos same, Option.map_eq_some_iff] at found
    obtain ⟨before, foundBefore, rfl⟩ := found
    exact Or.inr ⟨same, before, edge, foundBefore, waits, state⟩
  · rw [if_neg same] at found
    exact Or.inl ⟨cell, edge, found, waits, state⟩

end Network

end ConceptLaws.Propagation
