import ConceptLaws.Proofs.Propagation.Protection

/-! What is kept.
A tree that is gone stays gone. As long as a tree is live its edges stay, and an edge whose callback
was taken never gets one again; a command that has been executed stays so. Between the effects of a
cascade the values of data trees stay too, but for symbols, and nothing becomes known there. -/

namespace ConceptLaws.Command

def BoundBlock.isRecursive : BoundBlock → Bool
  | text _ => false
  | sources _ recursive _ => recursive

/-- A command that runs through sub-trees. -/
def Compiled.isRecursive (command : Compiled) : Bool :=
  command.recursiveTarget || command.blocks.any BoundBlock.isRecursive

/-- A command later on: what it does is the same, and it has been executed if it had been. -/
structure Compiled.Grows (command later : Compiled) : Prop where
  executed : command.executed = true → later.executed = true
  action : later.action = command.action
  recursive : later.isRecursive = command.isRecursive

theorem Compiled.grows_refl (command : Compiled) : command.Grows command := ⟨id, rfl, rfl⟩

theorem Compiled.Grows.trans {first second third : Compiled} (earlier : first.Grows second)
    (later : second.Grows third) : first.Grows third :=
  ⟨later.executed ∘ earlier.executed, later.action.trans earlier.action,
    later.recursive.trans earlier.recursive⟩

end ConceptLaws.Command

namespace ConceptLaws.Propagation

/-- The edges of a key stay, and none gets another callback. -/
def Cell.Holds (cell later : Cell) : Prop :=
  ∀ (source : Address) (edge : Edge), cell.waiting[source]? = some edge →
    ∃ after, later.waiting[source]? = some after ∧
      (after.callback = edge.callback ∨ after.callback = none)

theorem Cell.holds_of_waiting {cell later : Cell} (same : later.waiting = cell.waiting) :
    cell.Holds later :=
  fun source edge held => ⟨edge, by rw [same, held], Or.inl rfl⟩

namespace Network

structure Keeps (network later : Network) : Prop where
  sound : network.trees.Sound → later.trees.Sound
  issued : ∀ handle, network.trees.Issued handle → later.trees.Issued handle
  stale : ∀ handle, network.trees.Issued handle → network.tree? handle = none →
    later.tree? handle = none
  edges : ∀ waiter source edge, network.edge? waiter source = some edge →
    later.tree? waiter.tree = none ∨ ∃ after, later.edge? waiter source = some after ∧
      (after.callback = edge.callback ∨ after.callback = none)
  commands : ∀ handle command, network.command? handle = some command →
    later.tree? handle = none ∨ ∃ after, later.command? handle = some after ∧ command.Grows after

/-- Data trees stay, and nothing in them becomes known. -/
structure Retains (network later : Network) : Prop extends network.Keeps later where
  data : ∀ handle role, network.dataRole? handle = some role → later.dataRole? handle = some role
  known : ∀ key, (network.dataRole? key.tree).isSome = true → later.isKnown key = true →
    network.isKnown key = true

/-- The values of data trees stay, symbols apart. -/
structure Still (network later : Network) : Prop extends network.Retains later where
  values : ∀ key, (network.dataRole? key.tree).isSome = true → key.path ≠ symbolPath →
    later.value? key = network.value? key

/-- Nothing is called back and no command is executed. -/
structure Quiet (network later : Network) : Prop extends network.Still later where
  callbacks : later.counts.callbacks = network.counts.callbacks
  executions : later.counts.commands = network.counts.commands

variable {network later : Network}

theorem issued_of_tree? {handle : Handle} {tree : Tree} (live : network.tree? handle = some tree) :
    network.trees.Issued handle :=
  Arena.issued_of_get? live

theorem tree?_of_edge? {waiter source : Address} {edge : Edge}
    (held : network.edge? waiter source = some edge) :
    ∃ tree, network.tree? waiter.tree = some tree := by
  obtain ⟨cell, found, -⟩ := edge?_eq_some_iff.1 held
  obtain ⟨tree, live, -⟩ := cell?_eq_some_iff.1 found
  exact ⟨tree, live⟩

theorem tree?_of_dataRole? {handle : Handle} (data : (network.dataRole? handle).isSome = true) :
    ∃ tree, network.tree? handle = some tree := by
  unfold dataRole? at data
  cases live : network.tree? handle with
  | none => simp [live] at data
  | some tree => exact ⟨tree, rfl⟩

/-! ## Steps in a row -/

theorem keeps_refl (network : Network) : network.Keeps network :=
  ⟨id, fun _ => id, fun _ _ => id, fun _ _ edge held => Or.inr ⟨edge, held, Or.inl rfl⟩,
    fun _ command found => Or.inr ⟨command, found, command.grows_refl⟩⟩

theorem Keeps.trans {first second third : Network} (earlier : first.Keeps second)
    (later : second.Keeps third) : first.Keeps third where
  sound := later.sound ∘ earlier.sound
  issued handle := later.issued handle ∘ earlier.issued handle
  stale handle issued gone :=
    later.stale handle (earlier.issued handle issued) (earlier.stale handle issued gone)
  edges waiter source edge held := by
    obtain ⟨tree, live⟩ := tree?_of_edge? held
    rcases earlier.edges waiter source edge held with gone | ⟨middle, heldMiddle, less⟩
    · exact Or.inl (later.stale _ (earlier.issued _ (issued_of_tree? live)) gone)
    · refine (later.edges waiter source middle heldMiddle).imp_right ?_
      rintro ⟨after, heldAfter, lesser⟩
      refine ⟨after, heldAfter, ?_⟩
      rcases lesser with same | none_
      · exact less.imp same.trans same.trans
      · exact Or.inr none_
  commands handle command found := by
    obtain ⟨tree, live, -⟩ := command?_eq_some_iff.1 found
    rcases earlier.commands handle command found with gone | ⟨middle, foundMiddle, grows⟩
    · exact Or.inl (later.stale _ (earlier.issued _ (issued_of_tree? live)) gone)
    · refine (later.commands handle middle foundMiddle).imp_right ?_
      rintro ⟨after, foundAfter, growsAfter⟩
      exact ⟨after, foundAfter, grows.trans growsAfter⟩

theorem Retains.isData (retains : network.Retains later) {handle : Handle}
    (data : (network.dataRole? handle).isSome = true) : (later.dataRole? handle).isSome = true := by
  obtain ⟨role, found⟩ := Option.isSome_iff_exists.1 data
  exact Option.isSome_iff_exists.2 ⟨role, retains.data handle role found⟩

theorem retains_refl (network : Network) : network.Retains network :=
  ⟨network.keeps_refl, fun _ _ => id, fun _ _ => id⟩

theorem Retains.trans {first second third : Network} (earlier : first.Retains second)
    (later : second.Retains third) : first.Retains third where
  toKeeps := earlier.toKeeps.trans later.toKeeps
  data handle role := later.data handle role ∘ earlier.data handle role
  known key data known := earlier.known key data (later.known key (earlier.isData data) known)

theorem still_refl (network : Network) : network.Still network :=
  ⟨network.retains_refl, fun _ _ _ => rfl⟩

theorem Still.trans {first second third : Network} (earlier : first.Still second)
    (later : second.Still third) : first.Still third where
  toRetains := earlier.toRetains.trans later.toRetains
  values key data ordinary :=
    (later.values key (earlier.isData data) ordinary).trans (earlier.values key data ordinary)

theorem quiet_refl (network : Network) : network.Quiet network :=
  ⟨network.still_refl, rfl, rfl⟩

theorem Quiet.trans {first second third : Network} (earlier : first.Quiet second)
    (later : second.Quiet third) : first.Quiet third :=
  ⟨earlier.toStill.trans later.toStill, later.callbacks.trans earlier.callbacks,
    later.executions.trans earlier.executions⟩

theorem quiet_foldl {α : Type} {step : Network → α → Network} (items : List α)
    (each : ∀ item ∈ items, ∀ network : Network, network.Quiet (step network item))
    (network : Network) : network.Quiet (items.foldl step network) := by
  induction items generalizing network with
  | nil => exact network.quiet_refl
  | cons first rest ih =>
    exact (each first List.mem_cons_self network).trans
      (ih (fun item member => each item (List.mem_cons_of_mem first member)) _)

/-! ## Changes of a network -/

theorem SameRoles.dataRole? (same : network.SameRoles later) (handle : Handle) :
    later.dataRole? handle = network.dataRole? handle := by
  unfold Network.dataRole?
  rw [same handle]

theorem still_of_trees (trees : later.trees = network.trees) : network.Still later := by
  obtain ⟨otherTrees, agenda, maxSteps, counts, changed⟩ := later
  obtain rfl : otherTrees = network.trees := trees
  exact ⟨⟨⟨id, fun _ => id, fun _ _ => id, fun _ _ edge held => Or.inr ⟨edge, held, Or.inl rfl⟩,
    fun _ command found => Or.inr ⟨command, found, command.grows_refl⟩⟩, fun _ _ => id, fun _ _ => id⟩,
    fun _ _ _ => rfl⟩

theorem quiet_of_trees (trees : later.trees = network.trees)
    (callbacks : later.counts.callbacks = network.counts.callbacks)
    (executions : later.counts.commands = network.counts.commands) : network.Quiet later :=
  ⟨still_of_trees trees, callbacks, executions⟩

theorem still_updateCounts (network : Network) (change : Counts → Counts) :
    network.Still (network.updateCounts change) :=
  still_of_trees rfl

theorem quiet_updateAgenda (network : Network) (change : Agenda → Agenda) :
    network.Quiet (network.updateAgenda change) :=
  quiet_of_trees rfl rfl rfl

/-- Trees that keep their roles keep their commands. -/
theorem keeps_updateTree {handle : Handle} {change : Tree → Tree}
    (roles : ∀ tree, (change tree).role = tree.role)
    (edges : ∀ waiter source edge, network.edge? waiter source = some edge →
      ∃ after, (network.updateTree handle change).edge? waiter source = some after ∧
        (after.callback = edge.callback ∨ after.callback = none)) :
    network.Keeps (network.updateTree handle change) where
  sound sound := sound.update handle change
  issued query issued := issued.update handle change
  stale query _ gone := by
    rw [tree?_updateTree]
    split
    · rename_i same
      rw [← same, gone]
      rfl
    · exact gone
  edges waiter source edge held := Or.inr (edges waiter source edge held)
  commands query command found := by
    rw [(sameRoles_updateTree roles).command?]
    exact Or.inr ⟨command, found, command.grows_refl⟩

theorem keeps_updateCell {key : Address} {change : Cell → Cell}
    (holds : ∀ cell, network.cell? key = some cell → cell.Holds (change cell)) :
    network.Keeps (network.updateCell key change) := by
  refine keeps_updateTree (fun _ => rfl) fun waiter source edge held => ?_
  obtain ⟨cell, found, waits⟩ := edge?_eq_some_iff.1 held
  have after : (network.updateCell key change).cell? waiter =
      if waiter = key then (network.cell? key).map change else network.cell? waiter :=
    network.cell?_updateCell key waiter change
  by_cases same : waiter = key
  · subst same
    rw [if_pos rfl, found] at after
    obtain ⟨kept, present, less⟩ := holds cell found source edge waits
    exact ⟨kept, edge?_eq_some_iff.2 ⟨_, after, present⟩, less⟩
  · rw [if_neg same, found] at after
    exact ⟨edge, edge?_eq_some_iff.2 ⟨cell, after, waits⟩, Or.inl rfl⟩

theorem retains_updateCell {key : Address} {change : Cell → Cell}
    (holds : ∀ cell, network.cell? key = some cell → cell.Holds (change cell))
    (known : (network.dataRole? key.tree).isSome = true →
      ∀ cell, (change cell).known = true → cell.known = true) :
    network.Retains (network.updateCell key change) where
  toKeeps := keeps_updateCell holds
  data handle role found := by rwa [(network.sameRoles_updateCell key change).dataRole?]
  known query data isKnown := by
    obtain ⟨cell, found, set⟩ := isKnown_iff.1 isKnown
    rw [cell?_updateCell] at found
    split at found
    · rename_i same
      subst same
      obtain ⟨before, present, rfl⟩ := Option.map_eq_some_iff.1 found
      exact isKnown_iff.2 ⟨before, present, known data before set⟩
    · exact isKnown_iff.2 ⟨cell, found, set⟩

theorem quiet_updateCell {key : Address} {change : Cell → Cell}
    (holds : ∀ cell, network.cell? key = some cell → cell.Holds (change cell))
    (known : (network.dataRole? key.tree).isSome = true →
      ∀ cell, (change cell).known = true → cell.known = true)
    (value : (network.dataRole? key.tree).isSome = true → key.path ≠ symbolPath →
      ∀ cell, (change cell).value = cell.value) :
    network.Quiet (network.updateCell key change) := by
  refine ⟨⟨retains_updateCell holds known, fun query data ordinary => ?_⟩, rfl, rfl⟩
  unfold value?
  rw [cell?_updateCell]
  split
  · rename_i same
    subst same
    cases network.cell? query with
    | none => rfl
    | some cell => exact value data ordinary cell
  · rfl

/-- New keys hold no edges. -/
theorem edge?_ensure (network : Network) (key waiter source : Address) :
    (network.ensure key).edge? waiter source = network.edge? waiter source := by
  unfold edge?
  rcases network.cell?_ensure_cases key waiter with same | ⟨absent, active, new⟩
  · rw [same]
  · rw [absent, new]
    simp [Cell.fresh]

theorem quiet_ensure (network : Network) (key : Address) :
    network.Quiet (network.ensure key) := by
  refine ⟨⟨⟨keeps_updateTree (fun _ => rfl) fun waiter source edge held => ?_,
    fun handle role found => ?_, fun query _ known => ?_⟩,
    fun query _ _ => network.value?_ensure key query⟩, rfl, rfl⟩
  · exact ⟨edge, (network.edge?_ensure key waiter source).trans held, Or.inl rfl⟩
  · rwa [(network.sameRoles_ensure key).dataRole?]
  · rwa [isKnown_ensure] at known

theorem dataRole?_ensure (network : Network) (key : Address) (handle : Handle) :
    (network.ensure key).dataRole? handle = network.dataRole? handle :=
  (network.sameRoles_ensure key).dataRole? handle

theorem retains_ensureWith (network : Network) (key : Address) (change : Cell → Cell)
    (waiting : ∀ cell, (change cell).waiting = cell.waiting)
    (known : (network.dataRole? key.tree).isSome = true →
      ∀ cell, (change cell).known = true → cell.known = true) :
    network.Retains (network.ensureWith key change) := by
  rw [ensureWith_eq]
  refine (network.quiet_ensure key).toRetains.trans (retains_updateCell
    (fun cell _ => Cell.holds_of_waiting (waiting cell)) ?_)
  rwa [dataRole?_ensure]

theorem quiet_ensureWith (network : Network) (key : Address) (change : Cell → Cell)
    (waiting : ∀ cell, (change cell).waiting = cell.waiting)
    (known : (network.dataRole? key.tree).isSome = true →
      ∀ cell, (change cell).known = true → cell.known = true)
    (value : ∀ cell, (change cell).value = cell.value) :
    network.Quiet (network.ensureWith key change) := by
  rw [ensureWith_eq]
  refine (network.quiet_ensure key).trans (quiet_updateCell
    (fun cell _ => Cell.holds_of_waiting (waiting cell)) ?_ fun _ _ => value)
  rwa [dataRole?_ensure]

/-- A tree gets another role, but data trees keep theirs and commands stay commands. -/
theorem quiet_recast {handle : Handle} {role : Role}
    (data : network.dataRole? handle = none)
    (commands : ∀ command, network.command? handle = some command →
      ∃ after, role = .command after ∧ command.Grows after) :
    network.Quiet (network.updateTree handle fun tree => { tree with role }) := by
  have cells : ∀ query,
      (network.updateTree handle fun tree => { tree with role }).cell? query =
        network.cell? query := by
    intro query
    unfold cell?
    rw [tree?_updateTree]
    split
    · rename_i same
      rw [same]
      cases network.tree? handle <;> rfl
    · rfl
  refine ⟨⟨⟨⟨fun sound => sound.update _ _, fun query issued => issued.update _ _,
    fun query _ gone => ?_, fun waiter source edge held => ?_, fun query command found => ?_⟩,
    fun query data_ found => ?_, fun query _ known => ?_⟩, fun query _ _ => ?_⟩, rfl, rfl⟩
  · rw [tree?_updateTree]
    split
    · rename_i same
      rw [← same, gone]
      rfl
    · exact gone
  · refine Or.inr ⟨edge, ?_, Or.inl rfl⟩
    unfold edge? at held ⊢
    rwa [cells]
  · refine Or.inr ?_
    obtain ⟨tree, live, held⟩ := command?_eq_some_iff.1 found
    by_cases same : query = handle
    · subst same
      obtain ⟨after, rfl, grows⟩ := commands command found
      exact ⟨after, command?_eq_some_iff.2 ⟨_, by rw [tree?_updateTree, if_pos rfl, live]; rfl, rfl⟩,
        grows⟩
    · exact ⟨command, command?_eq_some_iff.2
        ⟨tree, by rw [tree?_updateTree, if_neg same, live], held⟩, command.grows_refl⟩
  · have different : query ≠ handle := by
      rintro rfl
      simp [data] at found
    unfold dataRole? at found ⊢
    rwa [tree?_updateTree, if_neg different]
  · unfold isKnown at known ⊢
    rwa [cells] at known
  · unfold value?
    rw [cells]

/-! ## Writing -/

theorem retains_foldl {α : Type} {step : Network → α → Network} (items : List α)
    (each : ∀ item ∈ items, ∀ network : Network, network.Retains (step network item))
    (network : Network) : network.Retains (items.foldl step network) := by
  induction items generalizing network with
  | nil => exact network.retains_refl
  | cons first rest ih =>
    exact (each first List.mem_cons_self network).trans
      (ih (fun item member => each item (List.mem_cons_of_mem first member)) _)

theorem quiet_noteChange (network : Network) (key : Address) :
    network.Quiet (network.noteChange key) := by
  unfold noteChange
  split
  · exact quiet_of_trees rfl rfl rfl
  · exact network.quiet_refl

theorem retains_write (network : Network) (key : Address) (value : Datum) :
    network.Retains (network.write key value).2 := by
  unfold write
  split
  · exact network.retains_refl
  split
  · exact network.retains_refl
  · have written : network.Retains (network.ensureWith key fun cell =>
        { cell.replace (some value) with locked := true }) :=
      network.retains_ensureWith key _ (fun _ => rfl) fun _ _ => id
    exact written.trans (quiet_noteChange _ key).toRetains

theorem retains_accumulate (network : Network) (operation : Arithmetic.Operator) (key : Address)
    (value : Datum) : network.Retains (network.accumulate operation key value) := by
  unfold accumulate
  split
  · exact network.retains_write key value
  split
  · exact network.retains_write key _
  · exact network.retains_refl

theorem retains_appendChild (network : Network) (key : Address) (value : Datum) :
    network.Retains (network.appendChild key value).2 := by
  unfold appendChild
  split
  · exact network.retains_refl
  · exact network.retains_write _ value

theorem retains_appendValue (network : Network) (key : Address) (value : Datum) :
    network.Retains (network.appendValue key value).2 := by
  unfold appendValue
  split <;> exact network.retains_write key _

/-- What is gone after an erasure held no edge. -/
theorem edge?_eraseLeaf (handle : Handle) (network : Network) (path : Path)
    (waiter source : Address) : (eraseLeaf handle network path).edge? waiter source =
      network.edge? waiter source ∨ waiter = ⟨handle, path⟩ := by
  unfold eraseLeaf edge? cell?
  rw [tree?_updateTree]
  split
  · rename_i sameTree
    rw [sameTree]
    cases network.tree? handle with
    | none => exact Or.inl rfl
    | some tree =>
      by_cases samePath : waiter.path = path
      · refine Or.inr ?_
        cases waiter
        simp_all
      · refine Or.inl ?_
        simp only [Option.map_some, Option.bind_eq_bind, Option.bind_some]
        split
        · rw [Tree.cell?_erase, if_neg fun gone => samePath gone.1]
        · rfl
  · exact Or.inl rfl

/-- A key that holds no edge can go. -/
theorem retains_eraseLeaf {network : Network} {handle : Handle} {path : Path}
    (bare : ∀ source, network.edge? ⟨handle, path⟩ source = none) :
    network.Retains (eraseLeaf handle network path) := by
  have roles : ∀ tree : Tree, (if (tree.descendants path).isEmpty then tree.erase path
      else tree).role = tree.role := by
    intro tree
    split
    · exact tree.role_erase path
    · rfl
  refine ⟨keeps_updateTree roles fun waiter source edge held => ?_, fun query role found => ?_,
    fun query _ known => ?_⟩
  · refine ⟨edge, ?_, Or.inl rfl⟩
    rcases edge?_eraseLeaf handle network path waiter source with same | rfl
    · exact same.trans held
    · simp [bare source] at held
  · have same : network.SameRoles (eraseLeaf handle network path) := sameRoles_updateTree roles
    rwa [same.dataRole?]
  · obtain ⟨cell, found, set⟩ := isKnown_iff.1 known
    refine isKnown_iff.2 ⟨cell, ?_, set⟩
    obtain ⟨tree, live, present⟩ := cell?_eq_some_iff.1 found
    unfold eraseLeaf at live
    rw [tree?_updateTree] at live
    split at live
    · rename_i sameTree
      obtain ⟨before, liveBefore, rfl⟩ := Option.map_eq_some_iff.1 live
      refine cell?_eq_some_iff.2 ⟨before, sameTree ▸ liveBefore, ?_⟩
      split at present
      · rw [Tree.cell?_erase] at present
        split at present
        · simp at present
        · exact present
      · exact present
    · exact cell?_eq_some_iff.2 ⟨tree, live, present⟩

theorem retains_foldl_eraseLeaf (handle : Handle) (paths : List Path) (network : Network)
    (bare : ∀ path ∈ paths, ∀ source, network.edge? ⟨handle, path⟩ source = none) :
    network.Retains (paths.foldl (eraseLeaf handle) network) := by
  induction paths generalizing network with
  | nil => exact network.retains_refl
  | cons first rest ih =>
    refine (retains_eraseLeaf (bare first List.mem_cons_self)).trans (ih _ ?_)
    intro path member source
    have before := bare path (List.mem_cons_of_mem first member) source
    rcases edge?_eraseLeaf handle network first ⟨handle, path⟩ source with same | same
    · exact same.trans before
    · obtain rfl : path = first := congrArg Address.path same
      unfold eraseLeaf edge? cell?
      rw [tree?_updateTree, if_pos rfl]
      unfold edge? cell? at before
      cases live : network.tree? handle with
      | none => rfl
      | some tree =>
        simp only [live, Option.bind_eq_bind, Option.bind_some] at before
        simp only [Option.map_some, Option.bind_eq_bind, Option.bind_some]
        split
        · rw [Tree.cell?_erase]
          split
          · rfl
          · exact before
        · exact before

theorem edge?_updateCell (network : Network) (key : Address) (change : Cell → Cell)
    (waiting : ∀ cell, (change cell).waiting = cell.waiting) (waiter source : Address) :
    (network.updateCell key change).edge? waiter source = network.edge? waiter source := by
  unfold edge?
  rw [cell?_updateCell]
  split
  · rename_i same
    rw [same]
    cases network.cell? key with
    | none => rfl
    | some cell => simp [waiting]
  · rfl

theorem retains_dropValue (network : Network) (key : Address) :
    network.Retains (network.dropValue key) :=
  retains_updateCell (fun _ _ => Cell.holds_of_waiting rfl) fun _ _ => id

theorem edge?_dropValue (network : Network) (key waiter source : Address) :
    (network.dropValue key).edge? waiter source = network.edge? waiter source :=
  network.edge?_updateCell key (fun cell => cell.replace none) (fun _ => rfl) waiter source

theorem edge?_foldl_dropValue (handle : Handle) (paths : List Path) (network : Network)
    (waiter source : Address) :
    (paths.foldl (fun network path => network.dropValue ⟨handle, path⟩) network).edge? waiter
      source = network.edge? waiter source := by
  induction paths generalizing network with
  | nil => rfl
  | cons first rest ih => exact (ih _).trans (network.edge?_dropValue _ waiter source)

/-- Only keys without edges are erased. -/
theorem retains_clearKey (network : Network) (key : Address) :
    network.Retains (network.clearKey key) := by
  unfold clearKey
  split
  · exact network.retains_refl
  rename_i tree live
  refine ((network.retains_dropValue key).trans (retains_foldl _
    (fun path _ later => later.retains_dropValue ⟨key.tree, path⟩) _)).trans
      (retains_foldl_eraseLeaf _ _ _ fun path member source => ?_)
  obtain ⟨⟨listed, cell⟩, filtered, rfl⟩ := List.mem_map.1 (List.mem_mergeSort.1 member)
  obtain ⟨below, unlinked⟩ := List.mem_filter.1 filtered
  have found : network.cell? ⟨key.tree, listed⟩ = some cell :=
    cell?_eq_some_iff.2 ⟨tree, live, (Tree.mem_subtree.1 (List.mem_of_mem_drop below)).1⟩
  rw [edge?_foldl_dropValue, edge?_dropValue]
  unfold edge?
  rw [found]
  exact (Cell.isUnlinked_iff.1 unlinked).1 source

theorem retains_applyAction (network : Network) (action : Command.Action) (key : Address)
    (value : Datum) : network.Retains (network.applyAction action key value) := by
  cases action with
  | assign => exact network.retains_write key value
  | increase => exact network.retains_accumulate _ key value
  | decrease => exact network.retains_accumulate _ key value
  | scale => exact network.retains_accumulate _ key value
  | addChild => exact network.retains_appendChild key value
  | addValue => exact network.retains_appendValue key value
  | clear => exact network.retains_clearKey key

theorem retains_carryOut (network : Network) (command : Command.Compiled) (target : Address) :
    network.Retains (network.carryOut command target) := by
  have counted := (network.still_updateCounts fun counts =>
    { counts with commands := counts.commands + 1 }).toRetains
  unfold carryOut
  dsimp only
  split
  · exact counted.trans (retains_clearKey _ target)
  · refine counted.trans (retains_foldl _ (fun result _ later => ?_) _)
    obtain ⟨suffix, outcome⟩ := result
    cases outcome with
    | ok value => exact later.retains_applyAction _ _ value
    | error fault => exact later.retains_refl

theorem quiet_aggregateSymbol (network : Network) (handle : Handle) :
    network.Quiet (network.aggregateSymbol handle) := by
  unfold aggregateSymbol
  split
  · exact network.quiet_refl
  · exact quiet_updateCell (fun _ _ => Cell.holds_of_waiting rfl) (fun _ _ => id)
      fun _ ordinary => (ordinary rfl).elim

/-! ## Waiting -/

theorem quiet_foldl_activateKey (handle : Handle) (entries : List (Path × Cell))
    (walk : ActivationWalk) :
    walk.network.Quiet (entries.foldl (activateKey handle) walk).network := by
  induction entries generalizing walk with
  | nil => exact walk.network.quiet_refl
  | cons first rest ih =>
    have head : walk.network.Quiet (activateKey handle walk first).network := by
      unfold activateKey
      dsimp only
      split
      · exact walk.network.quiet_refl
      · exact quiet_updateCell (fun _ _ => Cell.holds_of_waiting rfl) (fun _ _ => id)
          fun _ _ _ => rfl
    exact head.trans (ih _)

theorem quiet_activateSubtree (walk : ActivationWalk) (key : Address) :
    walk.network.Quiet (activateSubtree walk key).network := by
  unfold activateSubtree
  dsimp only
  split
  · exact walk.network.quiet_refl
  · exact (walk.network.quiet_ensure key).trans (quiet_foldl_activateKey key.tree _
      { walk with network := walk.network.ensure key })

theorem quiet_walkActivation (turns : Nat) (walk : ActivationWalk) :
    walk.network.Quiet (walkActivation turns walk).network := by
  induction turns generalizing walk with
  | zero => exact walk.network.quiet_refl
  | succ turns ih =>
    unfold walkActivation
    split
    · exact walk.network.quiet_refl
    · rename_i key rest _
      exact (quiet_activateSubtree
        { walk with stack := rest, seen := walk.seen.insert key } key).trans (ih _)

theorem quiet_activateFrom (network : Network) (key : Address) :
    network.Quiet (network.activateFrom key) :=
  (quiet_walkActivation (network.edgeCount + 1) ⟨network, [key], ∅, []⟩).trans
    (quiet_of_trees rfl rfl rfl)

theorem quiet_prepareWaiter (network : Network) (waiter : Address) :
    network.Quiet (network.prepareWaiter waiter) :=
  network.quiet_ensureWith waiter _ (fun _ => rfl) (fun _ _ => id) fun _ => rfl

/-- An edge that is there is left alone; a new one takes the place of none. -/
theorem quiet_waitOn (network : Network) (waiter source : Address) (callback : Option Callback) :
    network.Quiet (network.waitOn waiter source callback).2 := by
  have prepared := network.quiet_prepareWaiter waiter
  unfold waitOn
  split
  · exact network.quiet_refl
  dsimp only
  split
  · exact prepared
  rename_i new
  have added : (network.prepareWaiter waiter).Quiet
      ((network.prepareWaiter waiter).addEdge waiter source callback) := by
    refine quiet_updateCell (fun cell found other edge held => ?_) (fun _ _ => id) fun _ _ _ => rfl
    simp only [found, Option.map_some, Option.getD_some,
      Std.ExtTreeMap.contains_eq_isSome_getElem?, Bool.not_eq_true, Option.isSome_eq_false_iff,
      Option.isNone_iff_eq_none] at new
    refine ⟨edge, ?_, Or.inl rfl⟩
    simp only [Std.ExtTreeMap.getElem?_insert, Std.compare_eq_iff_eq]
    rw [if_neg]
    · exact held
    · rintro rfl
      simp [new] at held
  have linked := (prepared.trans added).trans (quiet_ensureWith _ source
    (fun cell => { cell with triggers := cell.triggers.insert waiter })
    (fun _ => rfl) (fun _ _ => id) fun _ => rfl)
  have told (later : Network) (same : network.Quiet later) :
      network.Quiet (later.updateAgenda fun agenda => agenda.pushResolve waiter source) :=
    same.trans (later.quiet_updateAgenda _)
  split
  · apply told
    split
    · exact linked.trans (quiet_activateFrom _ source)
    · exact linked
  · split
    · exact linked.trans (quiet_activateFrom _ source)
    · exact linked

/-! ## Commands and variables -/

/-- A command is replaced by what it grows to. -/
theorem quiet_setCommand {network : Network} {handle : Handle} {command after : Command.Compiled}
    (found : network.command? handle = some command)
    (grows : command.Grows after) : network.Quiet (network.setCommand handle after) := by
  obtain ⟨tree, live, role⟩ := command?_eq_some_iff.1 found
  refine quiet_recast ?_ fun other foundOther => ?_
  · simp [dataRole?, live, role]
  · obtain rfl : command = other := Option.some.inj (found.symm.trans foundOther)
    exact ⟨after, rfl, grows⟩

/-- A block that gets another source is as recursive as before. -/
theorem any_isRecursive_addSource? {binding key : Address} {place : Nat}
    {blocks later : List Command.BoundBlock}
    (added : addSource? binding place blocks = some (key, later)) :
    later.any Command.BoundBlock.isRecursive = blocks.any Command.BoundBlock.isRecursive := by
  induction place generalizing key blocks later with
  | zero =>
    cases blocks with
    | nil => simp [addSource?] at added
    | cons block rest =>
      cases block with
      | text => simp [addSource?] at added
      | sources keys recursive suffix =>
        obtain ⟨-, rfl⟩ := Prod.mk.inj (Option.some.inj added)
        rfl
  | succ place ih =>
    cases blocks with
    | nil => simp [addSource?] at added
    | cons block rest =>
      obtain ⟨⟨_, inner⟩, found, same⟩ := Option.map_eq_some_iff.1 added
      obtain ⟨-, rfl⟩ := Prod.mk.inj same
      rw [List.any_cons, List.any_cons, ih found]

theorem quiet_bindCommand (network : Network) (handle : Handle) (source : Address)
    (callback : Callback) : network.Quiet (network.bindCommand handle source callback) := by
  unfold bindCommand
  split
  · exact network.quiet_refl
  split
  · rename_i binding command _ found
    cases callback with
    | bindTarget =>
      have aimed : network.Quiet (network.setCommand handle
          { command with target := some (binding.below command.targetSuffix) }) :=
        quiet_setCommand found ⟨id, rfl, rfl⟩
      exact aimed.trans (quiet_waitOn _ _ _ none)
    | bindBlock place =>
      dsimp only
      split
      · exact network.quiet_refl
      · rename_i blocks added
        have fed : network.Quiet (network.setCommand handle { command with blocks := blocks }) :=
          quiet_setCommand found ⟨id, rfl,
            congrArg (command.recursiveTarget || ·) (any_isRecursive_addSource? added)⟩
        exact fed.trans (quiet_waitOn _ _ _ none)
  · exact network.quiet_refl

/-- A key that is not in a data tree becomes known. -/
theorem quiet_setKnown {network : Network} {key : Address}
    (data : network.dataRole? key.tree = none) : network.Quiet (network.setKnown id key false) := by
  unfold setKnown
  split
  · exact network.quiet_refl
  · have known : network.Quiet (network.ensureWith key fun cell => { cell with known := true }) :=
      network.quiet_ensureWith key _ (fun _ => rfl) (fun isData => by simp [data] at isData)
        fun _ => rfl
    exact known.trans (quiet_updateAgenda _ _)

theorem quiet_bindVariable (network : Network) (variableTable : Handle) (name : String)
    (target : Address) : network.Quiet (network.bindVariable id variableTable name target) := by
  unfold bindVariable
  split
  · rename_i role found
    have data : network.dataRole? variableTable = none := by simp [dataRole?, found]
    have bound : network.Quiet (network.updateTree variableTable fun tree =>
        { tree with role :=
          .variableTable { role with bindings := role.bindings.insert name target } }) :=
      quiet_recast data fun command command_ => by simp [command?, found] at command_
    have named := bound.trans (quiet_ensureWith _ (variableKey variableTable name)
      (fun cell => { cell with active := true }) (fun _ => rfl) (fun _ _ => id) fun _ => rfl)
    refine named.trans (quiet_setKnown ?_)
    simp only [variableKey, ensureWith_eq]
    rw [(sameRoles_updateCell _ _ _).dataRole?, dataRole?_ensure]
    unfold dataRole?
    obtain ⟨tree, live, -⟩ := Option.map_eq_some_iff.1 found
    simp [live]
  · exact network.quiet_refl

/-! ## Trees -/

theorem command?_of_tree? {network : Network} {handle : Handle}
    (same : later.tree? handle = network.tree? handle) :
    later.command? handle = network.command? handle := by
  unfold command?
  rw [same]

theorem cell?_congr {key : Address} (same : later.tree? key.tree = network.tree? key.tree) :
    later.cell? key = network.cell? key := by
  unfold cell?
  rw [same]

/-- Trees that were issued stay as they are. -/
theorem quiet_of_issued (arena : later.trees.Sound)
    (issued : ∀ handle, network.trees.Issued handle → later.trees.Issued handle)
    (same : ∀ handle, network.trees.Issued handle → later.tree? handle = network.tree? handle)
    (counts : later.counts = network.counts) : network.Quiet later := by
  have live : ∀ {handle tree}, network.tree? handle = some tree →
      later.tree? handle = network.tree? handle := fun found => same _ (issued_of_tree? found)
  have isData : ∀ {handle}, (network.dataRole? handle).isSome = true →
      later.tree? handle = network.tree? handle := by
    intro handle data
    obtain ⟨tree, found⟩ := tree?_of_dataRole? data
    exact live found
  refine ⟨⟨⟨⟨fun _ => arena, issued, fun handle known gone => (same handle known).trans gone,
    fun waiter source edge held => Or.inr ⟨edge, ?_, Or.inl rfl⟩,
    fun handle command found => Or.inr ⟨command, ?_, command.grows_refl⟩⟩,
    fun handle role found => ?_,
    fun key data known => ?_⟩, fun key data _ => ?_⟩, congrArg _ counts, congrArg _ counts⟩
  · obtain ⟨tree, found⟩ := tree?_of_edge? held
    unfold edge? at held ⊢
    rwa [cell?_congr (live found)]
  · obtain ⟨tree, alive, -⟩ := command?_eq_some_iff.1 found
    rwa [command?_of_tree? (live alive)]
  · have data : (network.dataRole? handle).isSome = true := by rw [found]; rfl
    unfold dataRole? at found ⊢
    rwa [isData data]
  · unfold isKnown at known ⊢
    rwa [cell?_congr (isData data)] at known
  · unfold value?
    rw [cell?_congr (isData data)]

theorem quiet_create (sound : network.trees.Sound) (role : Role) :
    network.Quiet (network.create role).2 := by
  refine quiet_of_issued (sound.allocate _) (fun handle issued => issued.allocate sound _)
    (fun handle issued => ?_) rfl
  have new := sound.get?_allocate (.ofRole role) handle
  refine new.trans (if_neg ?_)
  rintro rfl
  exact sound.not_issued_allocate (.ofRole role) issued

theorem keeps_remove (network : Network) (handle : Handle) :
    network.Keeps (network.remove handle).2 := by
  have trees := network.tree?_remove handle
  have fate : ∀ query, (network.remove handle).2.tree? query = none ∨
      (network.remove handle).2.tree? query = network.tree? query := by
    intro query
    rw [trees]
    split
    · exact Or.inl rfl
    · exact Or.inr rfl
  refine ⟨fun sound => sound.deallocate handle, fun query issued => issued.deallocate handle,
    fun query _ gone => (fate query).elim id fun same => same.trans gone,
    fun waiter source edge held => (fate waiter.tree).imp_right fun same =>
      ⟨edge, ?_, Or.inl rfl⟩,
    fun query command found => (fate query).imp_right fun same =>
      ⟨command, ?_, command.grows_refl⟩⟩
  · unfold edge? at held ⊢
    rwa [cell?_congr same]
  · rwa [command?_of_tree? same]

/-- A tree that holds no data can go. -/
theorem quiet_remove {handle : Handle} (bare : network.dataRole? handle = none) :
    network.Quiet (network.remove handle).2 := by
  have data : ∀ {query}, (network.dataRole? query).isSome = true →
      (network.remove handle).2.tree? query = network.tree? query := by
    intro query isData
    rw [tree?_remove, if_neg]
    rintro rfl
    simp [bare] at isData
  refine ⟨⟨⟨network.keeps_remove handle, fun query role found => ?_, fun key isData known => ?_⟩,
    fun key isData _ => ?_⟩, rfl, rfl⟩
  · have isData : (network.dataRole? query).isSome = true := by rw [found]; rfl
    unfold dataRole? at found ⊢
    rwa [data isData]
  · unfold isKnown at known ⊢
    rwa [cell?_congr (data isData)] at known
  · unfold value?
    rw [cell?_congr (data isData)]

end Network

end ConceptLaws.Propagation
