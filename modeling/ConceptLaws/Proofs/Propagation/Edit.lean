import ConceptLaws.Proofs.Propagation.Soundness
import ConceptLaws.Propagation.Activation

/-! Edits of a network.
Whatever an operation does to a network is a sequence of a few kinds of edits. Tame edits make no
edge and complete no key: they add bare keys, change values, activate sections and erase unlinked
leaves. The other edits change one key or the agenda, and keep the network in order as long as what
they add is attached. -/

namespace ConceptLaws.Propagation

/-! ## Tame edits of a tree -/

namespace Tree

/-- Keys are kept, and what is new is bare. -/
structure Tame (tree later : Tree) : Prop where
  sound : later.Sound
  role : later.role = tree.role
  kept : ∀ path cell, tree.cell? path = some cell → path = Path.root ∨ cell.isUnlinked = false →
    ∃ after, later.cell? path = some after ∧ cell.Grows after
  origin : ∀ path cell, later.cell? path = some cell →
    cell.Bare ∨ ∃ before, tree.cell? path = some before ∧ before.Carries cell

theorem Sound.tame_ensure {tree : Tree} (sound : tree.Sound) (path : Path) :
    tree.Tame (tree.ensure path) := by
  refine ⟨sound.ensure path, role_ensure tree path, fun query cell found _ => ?_,
    fun query cell found => ?_⟩
  · exact ⟨cell, cell?_ensure_of_some sound.rooted found, cell.grows_refl⟩
  · rcases cell?_of_ensure sound.rooted found with old | ⟨-, -, rfl⟩
    · exact Or.inr ⟨cell, old, cell.carries_refl⟩
    · exact Or.inl (Cell.bare_fresh _)

theorem Sound.tame_update {tree : Tree} (sound : tree.Sound) (path : Path)
    {change : Cell → Cell} (same : ∀ cell : Cell, cell.SameState (change cell)) :
    tree.Tame (tree.update path change) := by
  refine ⟨?_, role_update tree path change, fun query cell found _ => ?_,
    fun query cell found => ?_⟩
  · refine sound.update path change (fun cell => (same cell).active) fun cell found done => ?_
    exact sound.calm path cell found ((same cell).propagated ▸ done)
  · rw [cell?_update]
    by_cases samePath : query = path
    · subst samePath
      exact ⟨change cell, by simp [found], (same cell).grows (same cell).active.trans⟩
    · exact ⟨cell, by simpa [samePath] using found, cell.grows_refl⟩
  · rw [cell?_update] at found
    by_cases samePath : query = path
    · rw [if_pos samePath, Option.map_eq_some_iff] at found
      obtain ⟨before, present, rfl⟩ := found
      exact Or.inr ⟨before, samePath ▸ present, (same before).toCarries⟩
    · rw [if_neg samePath] at found
      exact Or.inr ⟨cell, found, cell.carries_refl⟩

theorem Sound.tame_raise {tree : Tree} (sound : tree.Sound) (top : Path) :
    tree.Tame (tree.raise top) := by
  refine ⟨sound.raise top, role_raise tree top, fun query cell found _ => ?_,
    fun query cell found => ?_⟩
  · rw [cell?_raise, found]
    refine ⟨_, rfl, ?_⟩
    dsimp only
    by_cases within : query.isWithin top = true
    · rw [if_pos within]
      exact Cell.Carries.grows ⟨rfl, rfl, rfl, rfl, rfl⟩ fun _ => rfl
    · rw [if_neg within]
      exact cell.grows_refl
  · rw [cell?_raise, Option.map_eq_some_iff] at found
    obtain ⟨before, present, rfl⟩ := found
    refine Or.inr ⟨before, present, ?_⟩
    by_cases within : query.isWithin top = true <;> simp only [within] <;>
      exact ⟨rfl, rfl, rfl, rfl, rfl⟩

theorem Sound.tame_refl {tree : Tree} (sound : tree.Sound) : tree.Tame tree :=
  ⟨sound, rfl, fun _ cell found _ => ⟨cell, found, cell.grows_refl⟩,
    fun _ cell found => Or.inr ⟨cell, found, cell.carries_refl⟩⟩

/-- An unlinked leaf can be erased. -/
theorem Sound.tame_erase {tree : Tree} (sound : tree.Sound) {path : Path}
    (leaf : tree.descendants path = [])
    (unlinked : ∀ cell, tree.cell? path = some cell → cell.isUnlinked = true) :
    tree.Tame (tree.erase path) := by
  have alone : ∀ query cell, tree.cell? query = some cell → query.isWithin path = true →
      query = path := by
    intro query cell found within
    by_cases same : query = path
    · exact same
    · have member := mem_descendants.2 ⟨found, within, same⟩
      simp [leaf] at member
  refine ⟨sound.erase alone, role_erase tree path, fun query cell found stays => ?_,
    fun query cell found => ?_⟩
  · refine ⟨cell, ?_, cell.grows_refl⟩
    rw [cell?_erase, if_neg, found]
    rintro ⟨rfl, lower⟩
    rcases stays with root | linked
    · exact lower root
    · simp [unlinked cell found] at linked
  · rw [cell?_erase] at found
    by_cases gone : query = path ∧ path ≠ Path.root
    · simp [gone.1, gone.2] at found
    · rw [if_neg gone] at found
      exact Or.inr ⟨cell, found, cell.carries_refl⟩

end Tree

/-! ## Tame edits of a network -/

namespace Network

/-- Nothing is propagated, no edge is made or satisfied, and nothing is told. -/
structure Tame (network later : Network) : Prop where
  founded : later.Founded
  evolves : network.Evolves later
  role : ∀ handle tree, later.tree? handle = some tree →
    ∃ before, network.tree? handle = some before ∧ tree.role = before.role
  origin : ∀ key cell, later.cell? key = some cell →
    cell.Bare ∨ ∃ before, network.cell? key = some before ∧ before.Carries cell
  events : ∀ waiter source, Event.resolve waiter source ∈ later.agenda.events →
    Event.resolve waiter source ∈ network.agenda.events

theorem Founded.tame_refl {network : Network} (founded : network.Founded) :
    network.Tame network :=
  ⟨founded, network.evolves_refl, fun _ tree live => ⟨tree, live, rfl⟩,
    fun _ cell found => Or.inr ⟨cell, found, cell.carries_refl⟩, fun _ _ => id⟩

theorem Tame.trans {first second third : Network} (earlier : first.Tame second)
    (later : second.Tame third) : first.Tame third := by
  refine ⟨later.founded, earlier.evolves.trans later.evolves, fun handle tree live => ?_,
    fun key cell found => ?_, fun waiter source => ?_⟩
  · obtain ⟨middle, liveMiddle, sameMiddle⟩ := later.role handle tree live
    obtain ⟨before, liveBefore, sameBefore⟩ := earlier.role handle middle liveMiddle
    exact ⟨before, liveBefore, sameMiddle.trans sameBefore⟩
  · rcases later.origin key cell found with bare | ⟨middle, foundMiddle, carries⟩
    · exact Or.inl bare
    · rcases earlier.origin key middle foundMiddle with bare | ⟨before, foundBefore, carried⟩
      · exact Or.inl (bare.carry carries)
      · exact Or.inr ⟨before, foundBefore, carried.trans carries⟩
  · exact earlier.events waiter source ∘ later.events waiter source

theorem Tame.hasEdge {network later : Network} (tame : network.Tame later)
    {waiter source : Address} {done : Bool} (held : later.HasEdge waiter source done) :
    network.HasEdge waiter source done := by
  obtain ⟨cell, edge, found, waits, state⟩ := held
  rcases tame.origin waiter cell found with bare | ⟨before, foundBefore, carries⟩
  · simp [bare.waiting] at waits
  · exact ⟨before, edge, foundBefore, carries.waiting ▸ waits, state⟩

theorem Sound.tame {network later : Network} (sound : network.Sound) (tame : network.Tame later) :
    later.Sound :=
  sound.evolve tame.evolves tame.founded (fun _ _ _ held => Or.inl (tame.hasEdge held))
    fun waiter source member => Or.inl (tame.events waiter source member)

theorem Founded.tame_updateTree {network : Network} (founded : network.Founded) (handle : Handle)
    {change : Tree → Tree}
    (tame : ∀ tree, network.tree? handle = some tree → tree.Tame (change tree)) :
    network.Tame (network.updateTree handle change) := by
  refine ⟨founded.updateTree fun tree live => (tame tree live).sound,
    evolves_updateTree (fun tree live => by rw [(tame tree live).role])
      fun tree path cell live => (tame tree live).kept path cell,
    fun query tree live => ?_, fun key cell found => ?_, fun _ _ => id⟩
  · rw [tree?_updateTree] at live
    by_cases same : query = handle
    · rw [if_pos same, Option.map_eq_some_iff] at live
      obtain ⟨before, liveBefore, rfl⟩ := live
      exact ⟨before, same ▸ liveBefore, (tame before liveBefore).role⟩
    · rw [if_neg same] at live
      exact ⟨tree, live, rfl⟩
  · obtain ⟨tree, live, present⟩ := cell?_eq_some_iff.1 found
    rw [tree?_updateTree] at live
    by_cases same : key.tree = handle
    · rw [if_pos same, Option.map_eq_some_iff] at live
      obtain ⟨before, liveBefore, rfl⟩ := live
      refine ((tame before liveBefore).origin key.path cell present).imp_right ?_
      rintro ⟨old, presentBefore, carries⟩
      exact ⟨old, cell?_eq_some_iff.2 ⟨before, same ▸ liveBefore, presentBefore⟩, carries⟩
    · rw [if_neg same] at live
      exact Or.inr ⟨cell, cell?_eq_some_iff.2 ⟨tree, live, present⟩, cell.carries_refl⟩

theorem Founded.tame_ensure {network : Network} (founded : network.Founded) (key : Address) :
    network.Tame (network.ensure key) :=
  founded.tame_updateTree key.tree fun tree live => (founded.trees _ tree live).tame_ensure key.path

theorem Founded.tame_updateCell {network : Network} (founded : network.Founded) (key : Address)
    {change : Cell → Cell} (same : ∀ cell : Cell, cell.SameState (change cell)) :
    network.Tame (network.updateCell key change) :=
  founded.tame_updateTree key.tree fun tree live =>
    (founded.trees _ tree live).tame_update key.path same

theorem Founded.tame_raise {network : Network} (founded : network.Founded) (key : Address) :
    network.Tame (network.updateTree key.tree fun tree => tree.raise key.path) :=
  founded.tame_updateTree key.tree fun tree live => (founded.trees _ tree live).tame_raise key.path

theorem Founded.tame_eraseLeaf {network : Network} (founded : network.Founded) {handle : Handle}
    {path : Path}
    (unlinked : ∀ cell, network.cell? ⟨handle, path⟩ = some cell → cell.isUnlinked = true) :
    network.Tame (eraseLeaf handle network path) := by
  refine founded.tame_updateTree handle fun tree live => ?_
  have sound := founded.trees handle tree live
  cases leaf : (tree.descendants path).isEmpty with
  | false => exact sound.tame_refl
  | true =>
    refine sound.tame_erase (List.isEmpty_iff.1 leaf) fun cell found => unlinked cell ?_
    exact cell?_eq_some_iff.2 ⟨tree, live, found⟩

/-- Only the trees and the events that will satisfy edges matter. -/
theorem Founded.tame_of_trees {network later : Network} (founded : network.Founded)
    (trees : later.trees = network.trees)
    (events : ∀ waiter source, Event.resolve waiter source ∈ later.agenda.events →
      Event.resolve waiter source ∈ network.agenda.events) : network.Tame later := by
  obtain ⟨otherTrees, agenda, maxSteps, counts, changed⟩ := later
  obtain rfl : otherTrees = network.trees := trees
  exact ⟨founded.of_trees rfl, evolves_of_trees rfl, fun _ tree live => ⟨tree, live, rfl⟩,
    fun _ cell found => Or.inr ⟨cell, found, cell.carries_refl⟩, events⟩

theorem Founded.tame_updateCounts {network : Network} (founded : network.Founded)
    (change : Counts → Counts) : network.Tame (network.updateCounts change) :=
  founded.tame_of_trees rfl fun _ _ => id

theorem Founded.tame_foldl {α : Type} {network : Network} (founded : network.Founded)
    (step : Network → α → Network) (items : List α)
    (each : ∀ later, network.Tame later → ∀ item ∈ items, later.Tame (step later item)) :
    network.Tame (items.foldl step network) := by
  induction items generalizing network with
  | nil => exact founded.tame_refl
  | cons first rest ih =>
    have head := each network founded.tame_refl first (List.mem_cons_self ..)
    refine head.trans (ih head.founded fun later tame item member => ?_)
    exact each later (head.trans tame) item (List.mem_cons_of_mem first member)

/-- What takes part in no edge does not do so later. -/
theorem Tame.unlinked {network later : Network} (tame : network.Tame later) {key : Address}
    (unlinked : ∀ cell, network.cell? key = some cell → cell.isUnlinked = true) :
    ∀ cell, later.cell? key = some cell → cell.isUnlinked = true := by
  intro cell found
  rcases tame.origin key cell found with bare | ⟨before, foundBefore, carries⟩
  · simp [Cell.isUnlinked, bare.waiting, bare.triggers]
  · have same := unlinked before foundBefore
    unfold Cell.isUnlinked at same ⊢
    rwa [carries.waiting, carries.triggers]

/-! ## Edits that keep the order -/

/-- The later network evolved and is in order. -/
structure Advances (network later : Network) : Prop where
  sound : later.Sound
  evolves : network.Evolves later

theorem Sound.advances_refl {network : Network} (sound : network.Sound) :
    network.Advances network :=
  ⟨sound, network.evolves_refl⟩

theorem Advances.trans {first second third : Network} (earlier : first.Advances second)
    (later : second.Advances third) : first.Advances third :=
  ⟨later.sound, earlier.evolves.trans later.evolves⟩

theorem Sound.advances_foldl {α : Type} {network : Network} (sound : network.Sound)
    (step : Network → α → Network) (items : List α)
    (each : ∀ later, network.Advances later → ∀ item ∈ items, later.Advances (step later item)) :
    network.Advances (items.foldl step network) := by
  induction items generalizing network with
  | nil => exact sound.advances_refl
  | cons first rest ih =>
    have head := each network sound.advances_refl first (List.mem_cons_self ..)
    refine head.trans (ih head.sound fun later advances item member => ?_)
    exact each later (head.trans advances) item (List.mem_cons_of_mem first member)

theorem Sound.advances_tame {network later : Network} (sound : network.Sound)
    (tame : network.Tame later) : network.Advances later :=
  ⟨sound.tame tame, tame.evolves⟩

/-- A change of a key that only gains, and gains attached edges only. -/
theorem Sound.advances_updateCell {network : Network} (sound : network.Sound) {key : Address}
    {change : Cell → Cell} (active : ∀ cell, (change cell).active = cell.active)
    (calm : ∀ cell, network.cell? key = some cell → (change cell).propagated = true →
      cell.active = true)
    (grows : ∀ cell, network.cell? key = some cell → cell.Grows (change cell))
    (edges : ∀ cell (source : Address) edge, network.cell? key = some cell →
      (change cell).waiting[source]? = some edge →
        cell.waiting[source]? = some edge ∨ network.Attached key source edge.satisfied) :
    network.Advances (network.updateCell key change) := by
  have evolves := evolves_updateCell grows
  refine ⟨sound.evolve evolves (sound.updateCell active calm) (fun waiter source done held => ?_)
    fun _ _ => Or.inl, evolves⟩
  rcases hasEdge_updateCell held with old | ⟨rfl, cell, edge, found, waits, rfl⟩
  · exact Or.inl old
  · rcases edges cell source edge found waits with was | attached
    · exact Or.inl ⟨cell, edge, found, was, rfl⟩
    · exact Or.inr (attached.evolve evolves)

/-- A change of what frees or bars a key. -/
theorem Sound.advances_relabel {network : Network} (sound : network.Sound) (key : Address)
    {change : Cell → Cell} (same : ∀ cell : Cell, cell.SameFlow (change cell)) :
    network.Advances (network.updateCell key change) := by
  refine sound.advances_updateCell (fun cell => (same cell).active) (fun cell found done => ?_)
    (fun cell _ => (same cell).grows) fun cell source edge _ waits => ?_
  · obtain ⟨tree, live, present⟩ := cell?_eq_some_iff.1 found
    exact (sound.trees _ tree live).calm key.path cell present ((same cell).propagated ▸ done)
  · exact Or.inl ((same cell).waiting ▸ waits)

theorem Sound.advances_ensureWith {network : Network} (sound : network.Sound) (key : Address)
    {change : Cell → Cell} (same : ∀ cell : Cell, cell.SameFlow (change cell)) :
    network.Advances (network.ensureWith key change) := by
  rw [ensureWith_eq]
  have ensured := sound.advances_tame (sound.tame_ensure key)
  exact ensured.trans (ensured.sound.advances_relabel key same)

/-- Satisfies an edge to a source that has propagated. -/
theorem Sound.advances_satisfied {network : Network} (sound : network.Sound)
    {waiter source : Address} (attached : network.Attached waiter source true) :
    network.Advances (network.updateCell waiter fun cell =>
      { cell with waiting := cell.waiting.insert source ⟨true, none⟩ }) := by
  refine sound.advances_updateCell (fun _ => rfl) (fun cell found done => ?_) (fun cell _ => ?_)
    fun cell other edge _ waits => ?_
  · obtain ⟨tree, live, present⟩ := cell?_eq_some_iff.1 found
    exact (sound.trees _ tree live).calm waiter.path cell present done
  · refine ⟨id, id, fun other edge waits => ?_, fun _ => id⟩
    simp only [Std.ExtTreeMap.getElem?_insert, Std.compare_eq_iff_eq]
    by_cases same : source = other
    · exact ⟨⟨true, none⟩, by simp [same], fun _ => rfl⟩
    · exact ⟨edge, by simpa [same] using waits, id⟩
  · simp only [Std.ExtTreeMap.getElem?_insert, Std.compare_eq_iff_eq] at waits
    by_cases same : source = other
    · rw [if_pos same, Option.some.injEq] at waits
      subst waits
      exact Or.inr (same ▸ attached)
    · exact Or.inl (by simpa [same] using waits)

/-- Marks an active key complete. -/
theorem Sound.advances_propagated {network : Network} (sound : network.Sound) {key : Address}
    (active : ∀ cell, network.cell? key = some cell → cell.active = true) :
    network.Advances (network.updateCell key fun cell => { cell with propagated := true }) :=
  sound.advances_updateCell (fun _ => rfl) (fun cell found _ => active cell found)
    (fun _ _ => ⟨id, fun _ => rfl, fun _ edge waits => ⟨edge, waits, id⟩, fun _ => id⟩)
    fun _ _ _ _ => Or.inl

/-- Activates a key: one of variables, or one that is active already. -/
theorem Sound.advances_activate {network : Network} (sound : network.Sound) (key : Address)
    (active : ∀ tree, network.tree? key.tree = some tree → tree.role.isVariables = false →
      ∀ cell, tree.cell? key.path = some cell → cell.active = true) :
    network.Advances (network.updateCell key fun cell => { cell with active := true }) := by
  have evolves : network.Evolves (network.updateCell key fun cell =>
      { cell with active := true }) :=
    evolves_updateCell fun _ _ => ⟨fun _ => rfl, id, fun _ edge waits => ⟨edge, waits, id⟩,
      fun _ => id⟩
  refine ⟨sound.evolve evolves (sound.updateTree fun tree live => ?_)
    (fun waiter source done held => ?_)
    fun _ _ => Or.inl, evolves⟩
  · have treeSound := sound.trees _ tree live
    cases tabled : tree.role.isVariables with
    | true => exact treeSound.updateVariable key.path tabled
    | false =>
      have same : tree.update key.path (fun cell => { cell with active := true }) = tree := by
        refine Tree.ext_cell? rfl fun path => ?_
        rw [Tree.cell?_update]
        by_cases samePath : path = key.path
        · rw [if_pos samePath, samePath]
          cases found : tree.cell? key.path with
          | none => rfl
          | some cell =>
            have set := active tree live tabled cell found
            cases cell
            simp_all
        · rw [if_neg samePath]
      rw [same]
      exact treeSound
  · rcases hasEdge_updateCell held with old | ⟨rfl, cell, edge, found, waits, state⟩
    · exact Or.inl old
    · exact Or.inl ⟨cell, edge, found, waits, state⟩

/-- A tree of variables remains one, and so do the others. -/
theorem Sound.advances_recast {network : Network} (sound : network.Sound) {handle : Handle}
    {role : Role} (same : ∀ tree, network.tree? handle = some tree →
      role.isVariables = tree.role.isVariables) :
    network.Advances (network.updateTree handle fun tree => { tree with role }) := by
  have evolves : network.Evolves (network.updateTree handle fun tree => { tree with role }) :=
    evolves_updateTree same fun _ _ cell _ found _ => ⟨cell, found, cell.grows_refl⟩
  refine ⟨sound.evolve evolves (sound.updateTree fun tree live => ?_)
    (fun waiter source done held => ?_) fun _ _ => Or.inl, evolves⟩
  · have treeSound := sound.trees _ tree live
    exact ⟨treeSound.rooted, treeSound.calm,
      fun plain => treeSound.downward ((same tree live).symm.trans plain)⟩
  · obtain ⟨cell, edge, found, waits, state⟩ := held
    refine Or.inl ⟨cell, edge, ?_, waits, state⟩
    obtain ⟨tree, live, present⟩ := cell?_eq_some_iff.1 found
    rw [tree?_updateTree] at live
    by_cases sameTree : waiter.tree = handle
    · rw [if_pos sameTree, Option.map_eq_some_iff] at live
      obtain ⟨before, liveBefore, rfl⟩ := live
      exact cell?_eq_some_iff.2 ⟨before, sameTree ▸ liveBefore, present⟩
    · rw [if_neg sameTree] at live
      exact cell?_eq_some_iff.2 ⟨tree, live, present⟩

/-- A new agenda may tell what is attached. -/
theorem Sound.advances_agenda {network later : Network} (sound : network.Sound)
    (trees : later.trees = network.trees)
    (events : ∀ waiter source, Event.resolve waiter source ∈ later.agenda.events →
      Event.resolve waiter source ∈ network.agenda.events ∨
        network.Attached waiter source true) : network.Advances later := by
  have evolves : network.Evolves later := evolves_of_trees trees
  refine ⟨sound.evolve evolves (sound.of_trees trees) (fun waiter source done held => ?_)
    fun waiter source member => ?_, evolves⟩
  · obtain ⟨otherTrees, agenda, maxSteps, counts, changed⟩ := later
    obtain rfl : otherTrees = network.trees := trees
    exact Or.inl held
  · exact (events waiter source member).imp_right fun attached => attached.evolve evolves

/-! ## New trees and removed ones -/

theorem Sound.tree?_create {network : Network} (sound : network.Sound) (role : Role)
    (query : Handle) :
    (network.create role).2.tree? query =
      if query = (network.create role).1 then some (.ofRole role) else network.tree? query :=
  sound.arena.get?_allocate (.ofRole role) query

/-- A new tree has a handle that was never given out. -/
theorem Sound.tree?_create_of_issued {network : Network} (sound : network.Sound) (role : Role)
    {query : Handle} (issued : network.trees.Issued query) :
    (network.create role).2.tree? query = network.tree? query := by
  rw [sound.tree?_create, if_neg]
  rintro rfl
  exact sound.arena.not_issued_allocate (.ofRole role) issued

/-- What is there after a tree was created was there before, or it is the new root. -/
theorem Sound.cell?_of_create {network : Network} (sound : network.Sound) {role : Role}
    {key : Address} {cell : Cell} (found : (network.create role).2.cell? key = some cell) :
    network.cell? key = some cell ∨ cell.Bare := by
  obtain ⟨tree, live, present⟩ := cell?_eq_some_iff.1 found
  rw [sound.tree?_create] at live
  split at live
  · obtain rfl := Option.some.inj live
    rw [Tree.cell?_ofRole] at present
    split at present
    · exact Or.inr (Option.some.inj present ▸ Cell.bare_fresh false)
    · simp at present
  · exact Or.inl (cell?_eq_some_iff.2 ⟨tree, live, present⟩)

theorem Sound.advances_create {network : Network} (sound : network.Sound) (role : Role) :
    network.Advances (network.create role).2 := by
  have kept : ∀ handle tree, network.tree? handle = some tree →
      (network.create role).2.tree? handle = some tree := by
    intro handle tree live
    rw [sound.tree?_create_of_issued role (Arena.issued_of_get? live), live]
  have evolves : network.Evolves (network.create role).2 := by
    refine ⟨fun handle issued => issued.allocate sound.arena _, fun handle issued stale => ?_,
      fun handle tree live => ⟨tree, kept handle tree live, rfl⟩, fun key cell found _ => ?_⟩
    · rw [sound.tree?_create_of_issued role issued, stale]
    · obtain ⟨tree, live, present⟩ := cell?_eq_some_iff.1 found
      exact ⟨cell, cell?_eq_some_iff.2 ⟨tree, kept _ tree live, present⟩, cell.grows_refl⟩
  refine ⟨sound.evolve evolves ⟨sound.arena.allocate _, fun handle tree live => ?_⟩
    (fun waiter source done held => ?_) fun _ _ => Or.inl, evolves⟩
  · rw [sound.tree?_create] at live
    split at live
    · obtain rfl := Option.some.inj live
      exact Tree.sound_ofRole role
    · exact sound.trees handle tree live
  · obtain ⟨cell, edge, found, waits, state⟩ := held
    rcases sound.cell?_of_create found with old | bare
    · exact Or.inl ⟨cell, edge, old, waits, state⟩
    · simp [bare.waiting] at waits

theorem tree?_remove (network : Network) (handle query : Handle) :
    (network.remove handle).2.tree? query =
      if query = handle then none else network.tree? query :=
  network.trees.get?_deallocate handle query

theorem cell?_remove (network : Network) (handle : Handle) (query : Address) :
    (network.remove handle).2.cell? query =
      if query.tree = handle then none else network.cell? query := by
  unfold cell?
  rw [tree?_remove]
  by_cases same : query.tree = handle <;> simp [same]

/-- Edges to a removed tree lead nowhere, and its handle is never given out again. -/
theorem Sound.remove {network : Network} (sound : network.Sound) (handle : Handle) :
    (network.remove handle).2.Sound := by
  have attached : ∀ waiter source done, network.Attached waiter source done →
      (network.remove handle).2.Attached waiter source done := by
    rintro waiter source done ⟨issued, held⟩
    refine ⟨issued.deallocate handle, fun live => ?_⟩
    rw [tree?_remove] at live
    by_cases same : source.tree = handle
    · simp [same] at live
    · rw [if_neg same] at live
      simpa only [cell?_remove, same, ↓reduceIte] using held live
  refine ⟨⟨sound.arena.deallocate handle, fun query tree live => ?_⟩,
    fun waiter source done held => attached _ _ _ (sound.linked _ _ _ ?_),
    fun waiter source member => attached _ _ _ (sound.queued waiter source member)⟩
  · rw [tree?_remove] at live
    split at live
    · simp at live
    · exact sound.trees query tree live
  · obtain ⟨cell, edge, found, waits, state⟩ := held
    rw [cell?_remove] at found
    split at found
    · simp at found
    · exact ⟨cell, edge, found, waits, state⟩

end Network

end ConceptLaws.Propagation
