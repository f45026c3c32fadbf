import ConceptLaws.Proofs.Propagation.Stride

/-! Primary data.
A key at or below a known key holds primary data. Only one action takes such data away: clearing,
which looks neither at the key nor at what is known below it. As long as no command clears, every
write refuses primary data, known keys stay known, and the values there stay what they were. The
symbol of a data tree is the one exception, as it is put together anew when it completes. -/

namespace ConceptLaws.Propagation

theorem Tree.cell?_ensure_cases (tree : Tree) (path query : Path) :
    (tree.ensure path).cell? query = tree.cell? query ∨
      tree.cell? query = none ∧ ∃ active, (tree.ensure path).cell? query = some (.fresh active) := by
  by_cases missing : query ∈ path.ancestry.takeWhile fun above => !tree.contains above
  · have absent := List.all_eq_true.1 List.all_takeWhile query missing
    rw [contains_eq_isSome] at absent
    refine Or.inr ⟨by simpa using absent, tree.inheritsActive path, ?_⟩
    unfold ensure cell?
    rw [getElem?_foldl_insert, if_pos missing]
  · refine Or.inl ?_
    unfold ensure cell?
    rw [getElem?_foldl_insert, if_neg missing]

/-- The sub-tree of a key starts with the key itself. -/
theorem Tree.drop_subtree {tree : Tree} (rooted : tree.Rooted) (top : Path) :
    (tree.subtree top).drop 1 = tree.descendants top := by
  unfold descendants
  rw [dropWhile_top (tree.ordered_subtree top) fun entry member => (mem_subtree.1 member).2]
  have ordered := tree.ordered_subtree top
  cases cells : tree.subtree top with
  | nil => rfl
  | cons first rest =>
    rw [cells] at ordered
    obtain ⟨before, -⟩ := List.pairwise_cons.1 ordered
    have inside : (first.1, first.2) ∈ tree.subtree top := cells ▸ List.mem_cons_self
    obtain ⟨found, within⟩ := mem_subtree.1 inside
    have others : ∀ entry ∈ rest, entry.1 ≠ top := fun entry member same =>
      Path.compare_ne_lt_of_isWithin within (same ▸ before entry member)
    have start : first.1 = top := by
      obtain ⟨highest, present⟩ := Option.isSome_iff_exists.1
        (rooted first.1 first.2 found top within)
      have listed : (top, highest) ∈ first :: rest :=
        cells ▸ mem_subtree.2 ⟨present, Path.isWithin_refl top⟩
      rcases List.mem_cons.1 listed with same | later
      · exact (congrArg Prod.fst same).symm
      · exact absurd rfl (others _ later)
    rw [List.filter_cons_of_neg (by simpa using start), List.filter_eq_self.2]
    · rfl
    · simpa using others

theorem Tree.mem_drop_subtree {tree : Tree} (rooted : tree.Rooted) {top path : Path} {cell : Cell}
    (found : tree.cell? path = some cell) (within : path.isWithin top = true)
    (below : path ≠ top) : (path, cell) ∈ (tree.subtree top).drop 1 := by
  rw [drop_subtree rooted, mem_descendants]
  exact ⟨found, within, below⟩

namespace Network

/-- The key, or one above it, is known. -/
def Shielded (network : Network) (key : Address) : Prop :=
  ∃ above, key.path.isWithin above = true ∧ network.isKnown ⟨key.tree, above⟩ = true

theorem isUnderKnown_iff {network : Network} {key : Address} {tree : Tree}
    (live : network.tree? key.tree = some tree) :
    tree.isUnderKnown key.path = true ↔ network.Shielded key := by
  have known : ∀ above, network.isKnown ⟨key.tree, above⟩ =
      ((tree.cell? above).map Cell.known).getD false := by
    intro above
    have same : network.cell? ⟨key.tree, above⟩ = tree.cell? above := cell?_of_tree? live
    unfold isKnown
    rw [same]
  unfold Tree.isUnderKnown Shielded
  simp only [List.any_eq_true, Path.mem_ancestry, known]

theorem tree?_of_shielded {network : Network} {key : Address} (shielded : network.Shielded key) :
    ∃ tree, network.tree? key.tree = some tree := by
  obtain ⟨above, -, known⟩ := shielded
  obtain ⟨cell, found, -⟩ := isKnown_iff.1 known
  obtain ⟨tree, live, -⟩ := cell?_eq_some_iff.1 found
  exact ⟨tree, live⟩

/-- No command clears, and handles are given out in order. -/
structure Safe (network : Network) : Prop where
  arena : network.trees.Sound
  harmless : ∀ handle command, network.command? handle = some command → command.action ≠ .clear

/-- Known keys stay known, and primary data stays what it was. -/
structure Spares (network later : Network) : Prop where
  safe : later.Safe
  known : ∀ key, network.isKnown key = true → later.isKnown key = true
  value : ∀ key, network.Shielded key → key.path ≠ symbolPath → later.value? key = network.value? key

theorem Spares.shielded {network later : Network} (spares : network.Spares later) {key : Address}
    (shielded : network.Shielded key) : later.Shielded key := by
  obtain ⟨above, within, known⟩ := shielded
  exact ⟨above, within, spares.known _ known⟩

theorem Safe.spares_refl {network : Network} (safe : network.Safe) : network.Spares network :=
  ⟨safe, fun _ known => known, fun _ _ _ => rfl⟩

theorem Spares.trans {first second third : Network} (earlier : first.Spares second)
    (later : second.Spares third) : first.Spares third where
  safe := later.safe
  known := fun key known => later.known key (earlier.known key known)
  value := fun key shielded ordinary =>
    (later.value key (earlier.shielded shielded) ordinary).trans
      (earlier.value key shielded ordinary)

theorem Safe.spares_foldl {α : Type} {step : Network → α → Network} (items : List α)
    (each : ∀ item ∈ items, ∀ network : Network, network.Safe → network.Spares (step network item))
    {network : Network} (safe : network.Safe) : network.Spares (items.foldl step network) := by
  induction items generalizing network with
  | nil => exact safe.spares_refl
  | cons first rest ih =>
    have head := each first List.mem_cons_self network safe
    exact head.trans (ih (fun item member => each item (List.mem_cons_of_mem first member)) head.safe)

/-! ## Changes of a network -/

theorem Safe.spares_of_trees {network later : Network} (safe : network.Safe)
    (trees : later.trees = network.trees) : network.Spares later := by
  obtain ⟨otherTrees, agenda, maxSteps, counts, changed⟩ := later
  obtain rfl : otherTrees = network.trees := trees
  exact ⟨⟨safe.arena, safe.harmless⟩, fun _ known => known, fun _ _ _ => rfl⟩

theorem Safe.spares_updateAgenda {network : Network} (safe : network.Safe)
    (change : Agenda → Agenda) : network.Spares (network.updateAgenda change) :=
  safe.spares_of_trees rfl

theorem Safe.spares_updateCounts {network : Network} (safe : network.Safe)
    (change : Counts → Counts) : network.Spares (network.updateCounts change) :=
  safe.spares_of_trees rfl

theorem Safe.updateTree {network : Network} (safe : network.Safe) (handle : Handle)
    {change : Tree → Tree} (roles : ∀ tree, (change tree).role = tree.role) :
    (network.updateTree handle change).Safe := by
  refine ⟨safe.arena.update handle change, fun query command found => ?_⟩
  rw [(sameRoles_updateTree roles).command?] at found
  exact safe.harmless query command found

/-- A change of a key keeps the key known if it is, and its value if it is primary data. -/
theorem Safe.spares_updateCell {network : Network} (safe : network.Safe) (key : Address)
    {change : Cell → Cell} (known : ∀ cell, cell.known = true → (change cell).known = true)
    (value : network.Shielded key → key.path ≠ symbolPath →
      ∀ cell, (change cell).value = cell.value) :
    network.Spares (network.updateCell key change) := by
  refine ⟨safe.updateTree key.tree fun _ => rfl, fun query isKnown => ?_,
    fun query shielded ordinary => ?_⟩
  · obtain ⟨cell, found, set⟩ := isKnown_iff.1 isKnown
    rw [isKnown_iff, cell?_updateCell]
    split
    · rename_i same
      rw [← same, found]
      exact ⟨change cell, rfl, known cell set⟩
    · exact ⟨cell, found, set⟩
  · unfold value?
    rw [cell?_updateCell]
    split
    · rename_i same
      subst same
      cases network.cell? query with
      | none => rfl
      | some cell => exact value shielded ordinary cell
    · rfl

theorem cell?_ensure_cases (network : Network) (key query : Address) :
    (network.ensure key).cell? query = network.cell? query ∨
      network.cell? query = none ∧
        ∃ active, (network.ensure key).cell? query = some (.fresh active) := by
  unfold cell?
  rw [tree?_ensure]
  split
  · rename_i same
    rw [same]
    cases network.tree? key.tree with
    | none => exact Or.inl rfl
    | some tree => exact tree.cell?_ensure_cases key.path query.path
  · exact Or.inl rfl

/-- New keys are not known and have no value. -/
theorem isKnown_ensure (network : Network) (key query : Address) :
    (network.ensure key).isKnown query = network.isKnown query := by
  unfold isKnown
  rcases network.cell?_ensure_cases key query with same | ⟨absent, active, new⟩
  · rw [same]
  · rw [absent, new]
    rfl

theorem value?_ensure (network : Network) (key query : Address) :
    (network.ensure key).value? query = network.value? query := by
  unfold value?
  rcases network.cell?_ensure_cases key query with same | ⟨absent, active, new⟩
  · rw [same]
  · rw [absent, new]
    rfl

theorem Safe.spares_ensure {network : Network} (safe : network.Safe) (key : Address) :
    network.Spares (network.ensure key) := by
  refine ⟨safe.updateTree key.tree fun _ => rfl, fun query known => ?_,
    fun query _ _ => network.value?_ensure key query⟩
  rw [isKnown_ensure]
  exact known

theorem Safe.spares_ensureWith {network : Network} (safe : network.Safe) (key : Address)
    {change : Cell → Cell} (known : ∀ cell, cell.known = true → (change cell).known = true)
    (value : network.Shielded key → key.path ≠ symbolPath →
      ∀ cell, (change cell).value = cell.value) :
    network.Spares (network.ensureWith key change) := by
  rw [ensureWith_eq]
  have ensured := safe.spares_ensure key
  refine ensured.trans (ensured.safe.spares_updateCell key known fun shielded => value ?_)
  unfold Shielded at *
  simp only [isKnown_ensure] at shielded
  exact shielded

/-- The roles of trees make no difference to their keys. -/
theorem Safe.spares_recast {network : Network} (safe : network.Safe) (handle : Handle) {role : Role}
    (harmless : ∀ command, role = .command command → command.action ≠ .clear) :
    network.Spares (network.updateTree handle fun tree => { tree with role }) := by
  have cells : ∀ query,
      (network.updateTree handle fun tree => { tree with role }).cell? query =
        network.cell? query := by
    intro query
    unfold cell?
    rw [tree?_updateTree]
    split
    · rename_i same
      rw [same]
      cases network.tree? handle with
      | none => rfl
      | some tree => rfl
    · rfl
  refine ⟨⟨safe.arena.update handle _, fun query command found => ?_⟩, fun query known => ?_,
    fun query _ _ => ?_⟩
  · obtain ⟨tree, live, held⟩ := command?_eq_some_iff.1 found
    rw [tree?_updateTree] at live
    split at live
    · obtain ⟨before, -, rfl⟩ := Option.map_eq_some_iff.1 live
      exact harmless command held
    · exact safe.harmless query command (command?_eq_some_iff.2 ⟨tree, live, held⟩)
  · unfold isKnown at *
    rw [cells]
    exact known
  · unfold value?
    rw [cells]

theorem Safe.tree?_create {network : Network} (safe : network.Safe) (role : Role)
    (query : Handle) : (network.create role).2.tree? query =
      if query = (network.create role).1 then some (.ofRole role) else network.tree? query :=
  safe.arena.get?_allocate (.ofRole role) query

/-- The handle of a new tree belonged to no other. -/
theorem Safe.tree?_fst_create {network : Network} (safe : network.Safe) (role : Role) :
    network.tree? (network.create role).1 = none := by
  rw [Option.eq_none_iff_forall_ne_some]
  intro tree live
  exact safe.arena.not_issued_allocate (.ofRole role) (Arena.issued_of_get? live)

theorem Safe.spares_create {network : Network} (safe : network.Safe) {role : Role}
    (harmless : ∀ command, role = .command command → command.action ≠ .clear) :
    network.Spares (network.create role).2 := by
  have kept : ∀ (query : Address) {tree : Tree}, network.tree? query.tree = some tree →
      (network.create role).2.cell? query = network.cell? query := by
    intro query tree live
    unfold cell?
    rw [safe.tree?_create, if_neg]
    intro same
    rw [same, safe.tree?_fst_create role] at live
    simp at live
  refine ⟨⟨safe.arena.allocate _, fun handle command found => ?_⟩, fun query known => ?_,
    fun query shielded _ => ?_⟩
  · obtain ⟨tree, live, held⟩ := command?_eq_some_iff.1 found
    rw [safe.tree?_create] at live
    split at live
    · obtain rfl := Option.some.inj live
      exact harmless command held
    · exact safe.harmless handle command (command?_eq_some_iff.2 ⟨tree, live, held⟩)
  · obtain ⟨cell, found, set⟩ := isKnown_iff.1 known
    obtain ⟨tree, live, -⟩ := cell?_eq_some_iff.1 found
    exact isKnown_iff.2 ⟨cell, (kept query live).trans found, set⟩
  · obtain ⟨tree, live⟩ := tree?_of_shielded shielded
    unfold value?
    rw [kept query live]

/-- A tree that was not there at the start can go. -/
theorem Spares.remove {network later : Network} (spares : network.Spares later) {handle : Handle}
    (new : network.tree? handle = none) : network.Spares (later.remove handle).2 := by
  have kept : ∀ (query : Address) {tree : Tree}, network.tree? query.tree = some tree →
      (later.remove handle).2.cell? query = later.cell? query := by
    intro query tree live
    rw [cell?_remove, if_neg]
    intro same
    simp [same, new] at live
  refine ⟨⟨spares.safe.arena.deallocate handle, fun query command found => ?_⟩,
    fun query known => ?_, fun query shielded ordinary => ?_⟩
  · obtain ⟨tree, live, held⟩ := command?_eq_some_iff.1 found
    rw [tree?_remove] at live
    split at live
    · simp at live
    · exact spares.safe.harmless query command (command?_eq_some_iff.2 ⟨tree, live, held⟩)
  · obtain ⟨cell, found, -⟩ := isKnown_iff.1 known
    obtain ⟨tree, live, -⟩ := cell?_eq_some_iff.1 found
    unfold isKnown
    rw [kept query live]
    exact spares.known query known
  · obtain ⟨tree, live⟩ := tree?_of_shielded shielded
    rw [← spares.value query shielded ordinary]
    unfold value?
    rw [kept query live]

/-! ## Writing -/

theorem Safe.spares_noteChange {network : Network} (safe : network.Safe) (key : Address) :
    network.Spares (network.noteChange key) := by
  unfold noteChange
  split
  · exact safe.spares_of_trees rfl
  · exact safe.spares_refl

/-- A write is refused where a key at or above is known. -/
theorem Safe.spares_write {network : Network} (safe : network.Safe) (key : Address)
    (value : Datum) : network.Spares (network.write key value).2 := by
  unfold write
  split
  · exact safe.spares_refl
  rename_i tree live
  split
  · exact safe.spares_refl
  rename_i open_
  have written : network.Spares (network.ensureWith key fun cell =>
      { cell.replace (some value) with locked := true }) := by
    refine safe.spares_ensureWith key (fun _ known => known) fun shielded => ?_
    exact (open_ ((isUnderKnown_iff live).2 shielded)).elim
  exact written.trans (written.safe.spares_noteChange key)

theorem Safe.spares_accumulate {network : Network} (safe : network.Safe)
    (operation : Arithmetic.Operator) (key : Address) (value : Datum) :
    network.Spares (network.accumulate operation key value) := by
  unfold accumulate
  split
  · exact safe.spares_write key value
  · split
    · exact safe.spares_write key _
    · exact safe.spares_refl

theorem Safe.spares_appendChild {network : Network} (safe : network.Safe) (key : Address)
    (value : Datum) : network.Spares (network.appendChild key value).2 := by
  unfold appendChild
  split
  · exact safe.spares_refl
  · exact safe.spares_write _ value

theorem Safe.spares_appendValue {network : Network} (safe : network.Safe) (key : Address)
    (value : Datum) : network.Spares (network.appendValue key value).2 := by
  unfold appendValue
  split
  · exact safe.spares_write key _
  · exact safe.spares_write key _

theorem Safe.spares_applyAction {network : Network} (safe : network.Safe) {action : Command.Action}
    (harmless : action ≠ .clear) (key : Address) (value : Datum) :
    network.Spares (network.applyAction action key value) := by
  cases action with
  | assign => exact safe.spares_write key value
  | increase => exact safe.spares_accumulate _ key value
  | decrease => exact safe.spares_accumulate _ key value
  | scale => exact safe.spares_accumulate _ key value
  | addChild => exact safe.spares_appendChild key value
  | addValue => exact safe.spares_appendValue key value
  | clear => exact (harmless rfl).elim

theorem Safe.spares_carryOut {network : Network} (safe : network.Safe) {command : Command.Compiled}
    (harmless : command.action ≠ .clear) (target : Address) :
    network.Spares (network.carryOut command target) := by
  have counted := safe.spares_updateCounts fun counts =>
    { counts with commands := counts.commands + 1 }
  unfold carryOut
  dsimp only
  rw [if_neg harmless]
  refine counted.trans (counted.safe.spares_foldl _ fun result _ later safeLater => ?_)
  obtain ⟨suffix, outcome⟩ := result
  cases outcome with
  | ok value => exact safeLater.spares_applyAction harmless _ value
  | error fault => exact safeLater.spares_refl

/-- Putting the symbol together changes the symbol only. -/
theorem Safe.spares_aggregateSymbol {network : Network} (safe : network.Safe) (handle : Handle) :
    network.Spares (network.aggregateSymbol handle) := by
  unfold aggregateSymbol
  split
  · exact safe.spares_refl
  · exact safe.spares_updateCell _ (fun _ known => known) fun _ ordinary => (ordinary rfl).elim

/-! ## Waiting -/

theorem spares_foldl_activateKey (handle : Handle) (entries : List (Path × Cell))
    (walk : ActivationWalk) (safe : walk.network.Safe) :
    walk.network.Spares (entries.foldl (activateKey handle) walk).network := by
  induction entries generalizing walk with
  | nil => exact safe.spares_refl
  | cons first rest ih =>
    have head : walk.network.Spares (activateKey handle walk first).network := by
      unfold activateKey
      dsimp only
      split
      · exact safe.spares_refl
      · exact safe.spares_updateCell _ (fun _ known => known) fun _ _ _ => rfl
    exact head.trans (ih _ head.safe)

theorem spares_activateSubtree (walk : ActivationWalk) (safe : walk.network.Safe) (key : Address) :
    walk.network.Spares (activateSubtree walk key).network := by
  unfold activateSubtree
  dsimp only
  split
  · exact safe.spares_refl
  · have ensured := safe.spares_ensure key
    exact ensured.trans (spares_foldl_activateKey key.tree _
      { walk with network := walk.network.ensure key } ensured.safe)

theorem spares_walkActivation (turns : Nat) (walk : ActivationWalk) (safe : walk.network.Safe) :
    walk.network.Spares (walkActivation turns walk).network := by
  induction turns generalizing walk with
  | zero => exact safe.spares_refl
  | succ turns ih =>
    unfold walkActivation
    split
    · exact safe.spares_refl
    · rename_i key rest _
      have head := spares_activateSubtree
        { walk with stack := rest, seen := walk.seen.insert key } safe key
      exact head.trans (ih _ head.safe)

theorem Safe.spares_activateFrom {network : Network} (safe : network.Safe) (key : Address) :
    network.Spares (network.activateFrom key) := by
  have walked := spares_walkActivation (network.edgeCount + 1) ⟨network, [key], ∅, []⟩ safe
  exact walked.trans (walked.safe.spares_of_trees rfl)

theorem Safe.spares_waitOn {network : Network} (safe : network.Safe) (waiter source : Address)
    (callback : Option Callback) :
    network.Spares (network.waitOn waiter source callback).2 := by
  have prepared : network.Spares (network.prepareWaiter waiter) :=
    safe.spares_ensureWith waiter (fun _ known => known) fun _ _ _ => rfl
  unfold waitOn
  split
  · exact safe.spares_refl
  dsimp only
  split
  · exact prepared
  have added : (network.prepareWaiter waiter).Spares
      ((network.prepareWaiter waiter).addEdge waiter source callback) :=
    prepared.safe.spares_updateCell waiter (fun _ known => known) fun _ _ _ => rfl
  have linked : (network.prepareWaiter waiter).Spares
      ((network.prepareWaiter waiter).link waiter source callback) :=
    added.trans (added.safe.spares_ensureWith source (fun _ known => known) fun _ _ _ => rfl)
  have roused : ((network.prepareWaiter waiter).link waiter source callback).Spares
      (if ((network.prepareWaiter waiter).addEdge waiter source callback).isActive waiter then
        ((network.prepareWaiter waiter).link waiter source callback).activateFrom source
      else (network.prepareWaiter waiter).link waiter source callback) := by
    split
    · exact linked.safe.spares_activateFrom source
    · exact linked.safe.spares_refl
  have done := (prepared.trans linked).trans roused
  split
  · exact done.trans (done.safe.spares_of_trees rfl)
  · exact done

/-! ## Commands and variables -/

/-- What is asked of a cascade. -/
def Sparing (cascade : Cascade) : Prop :=
  ∀ network : Network, network.Safe → network.Spares (cascade network)

theorem sparing_id : Sparing id := fun _ safe => safe.spares_refl

theorem Safe.spares_setKnown {network : Network} (safe : network.Safe) {cascade : Cascade}
    (sparing : Sparing cascade) (key : Address) :
    network.Spares (network.setKnown cascade key false) := by
  unfold setKnown
  split
  · exact safe.spares_refl
  dsimp only
  have known : network.Spares (network.ensureWith key fun cell => { cell with known := true }) :=
    safe.spares_ensureWith key (fun _ _ => rfl) fun _ _ _ => rfl
  have told := known.trans (known.safe.spares_updateAgenda fun agenda => agenda.pushCheck key)
  exact told.trans (sparing _ told.safe)

theorem Safe.spares_bindVariable {network : Network} (safe : network.Safe) {cascade : Cascade}
    (sparing : Sparing cascade) (variableTable : Handle) (name : String) (target : Address) :
    network.Spares (network.bindVariable cascade variableTable name target) := by
  unfold bindVariable
  split
  · rename_i role _
    dsimp only
    have bound : network.Spares (network.updateTree variableTable fun tree => { tree with
        role := .variableTable { role with bindings := role.bindings.insert name target } }) :=
      safe.spares_recast variableTable fun _ other => by simp at other
    generalize (network.updateTree variableTable fun tree => { tree with
      role := .variableTable { role with bindings := role.bindings.insert name target } }) =
        later at *
    have active : later.Spares (later.ensureWith (variableKey variableTable name) fun cell =>
        { cell with active := true }) :=
      bound.safe.spares_ensureWith _ (fun _ known => known) fun _ _ _ => rfl
    exact bound.trans (active.trans (active.safe.spares_setKnown sparing _))
  · exact safe.spares_refl

theorem Safe.spares_setCommand {network : Network} (safe : network.Safe) (handle : Handle)
    {command : Command.Compiled} (harmless : command.action ≠ .clear) :
    network.Spares (network.setCommand handle command) := by
  refine safe.spares_recast handle fun other same => ?_
  obtain rfl := Role.command.inj same
  exact harmless

theorem Safe.spares_execute {network : Network} (safe : network.Safe) {cascade : Cascade}
    (sparing : Sparing cascade) (handle : Handle) :
    network.Spares (network.execute cascade handle) := by
  unfold execute
  split
  · exact safe.spares_refl
  rename_i command found
  have harmless := safe.harmless handle command found
  split
  · exact safe.spares_refl
  dsimp only
  have marked : network.Spares (network.setCommand handle { command with executed := true }) :=
    safe.spares_setCommand handle harmless
  split
  · exact marked
  rename_i target _
  have carried := marked.trans (marked.safe.spares_carryOut harmless target)
  split
  · exact carried.trans (carried.safe.spares_bindVariable sparing _ _ _)
  · exact carried

theorem Safe.spares_bindCommand {network : Network} (safe : network.Safe) (handle : Handle)
    (source : Address) (callback : Callback) :
    network.Spares (network.bindCommand handle source callback) := by
  unfold bindCommand
  split
  · exact safe.spares_refl
  split
  · rename_i binding command _ found
    have harmless := safe.harmless handle command found
    cases callback with
    | bindTarget =>
      have renamed : network.Spares (network.setCommand handle
          { command with target := some (binding.below command.targetSuffix) }) :=
        safe.spares_setCommand handle harmless
      exact renamed.trans (renamed.safe.spares_waitOn _ _ none)
    | bindBlock place =>
      dsimp only
      split
      · exact safe.spares_refl
      · rename_i key blocks _
        have extended : network.Spares (network.setCommand handle { command with blocks := blocks }) :=
          safe.spares_setCommand handle harmless
        exact extended.trans (extended.safe.spares_waitOn _ key none)
  · exact safe.spares_refl

/-! ## Completing keys -/

theorem Safe.spares_satisfy {network : Network} (safe : network.Safe) (waiter source : Address) :
    network.Spares (network.satisfy waiter source).2 := by
  unfold satisfy
  split
  · exact safe.spares_refl
  split
  · exact safe.spares_refl
  dsimp only
  have satisfied : network.Spares (network.updateCell waiter fun cell =>
      { cell with waiting := cell.waiting.insert source ⟨true, none⟩ }) :=
    safe.spares_updateCell waiter (fun _ known => known) fun _ _ _ => rfl
  split
  · exact satisfied
  · rename_i callback _
    have counted := satisfied.trans (satisfied.safe.spares_updateCounts fun counts =>
      { counts with callbacks := counts.callbacks + 1 })
    exact counted.trans (counted.safe.spares_bindCommand _ source callback)

theorem Safe.spares_propagateKey {network : Network} (safe : network.Safe) (key : Address) :
    network.Spares (network.propagateKey key) := by
  unfold propagateKey
  split
  · exact safe.spares_refl
  split
  · exact safe.spares_refl
  have marked : network.Spares (network.updateCell key fun cell =>
      { cell with propagated := true }) :=
    safe.spares_updateCell key (fun _ known => known) fun _ _ _ => rfl
  exact marked.trans (marked.safe.spares_of_trees rfl)

theorem Safe.spares_runKey {network : Network} (safe : network.Safe) {cascade : Cascade}
    (sparing : Sparing cascade) (key : Address) : network.Spares (network.runKey cascade key) := by
  unfold runKey
  split
  · split
    · exact safe.spares_aggregateSymbol key.tree
    · exact safe.spares_refl
  · split
    · exact safe.spares_execute sparing key.tree
    · exact safe.spares_refl
  · exact safe.spares_refl

theorem Safe.spares_runAndPropagate {network : Network} (safe : network.Safe) {cascade : Cascade}
    (sparing : Sparing cascade) (key : Address) :
    network.Spares (network.runAndPropagate cascade key) := by
  have ran := safe.spares_runKey sparing key
  exact ran.trans (ran.safe.spares_propagateKey key)

theorem Safe.spares_complete {network : Network} (safe : network.Safe) {cascade : Cascade}
    (sparing : Sparing cascade) (key : Address) :
    network.Spares (network.complete cascade key) := by
  unfold complete
  split
  · exact safe.spares_refl
  rename_i tree _
  dsimp only
  have below := safe.spares_foldl (tree.following key.path).ready
    (fun path _ later (safeLater : later.Safe) =>
      safeLater.spares_runAndPropagate sparing ⟨key.tree, path⟩)
  have own := below.trans (below.safe.spares_runAndPropagate sparing key)
  exact own.trans (own.safe.spares_updateAgenda _)

/-! ## The cascade -/

theorem Safe.spares_satisfyDone (handle : Handle) (edges : List (Path × Address))
    {network : Network} (safe : network.Safe) :
    network.Spares (network.satisfyDone handle edges).2.2 := by
  induction edges generalizing network with
  | nil => exact safe.spares_refl
  | cons first rest ih =>
    unfold satisfyDone
    split
    · have head := safe.spares_satisfy ⟨handle, first.1⟩ first.2
      exact head.trans (ih head.safe)
    · exact ih safe

theorem Safe.spares_settleKey (key : Address) (turns : Nat) {network : Network}
    (safe : network.Safe) : network.Spares (settleKey none key turns network).2 := by
  induction turns generalizing network with
  | zero => exact safe.spares_refl
  | succ turns ih =>
    unfold settleKey
    split
    · rename_i edges _
      have satisfied := safe.spares_satisfyDone key.tree edges
      dsimp only
      split
      · exact satisfied.trans (ih satisfied.safe)
      · exact satisfied
    · exact safe.spares_refl

theorem Safe.spares_attempt {cascade : Cascade} (sparing : Sparing cascade)
    {above : Network → Address → Network}
    (spares : ∀ (network : Network) key, network.Safe → network.Spares (above network key))
    {network : Network} (safe : network.Safe) (key : Address) :
    network.Spares (attempt cascade none above network key).2 := by
  have settled := safe.spares_settleKey key (network.pendingWeight + 1)
  unfold attempt
  generalize settleKey none key (network.pendingWeight + 1) network = outcome at *
  obtain ⟨answer, later⟩ := outcome
  cases answer with
  | complete => exact settled
  | stuck => exact settled
  | «open» edges => exact settled
  | ready =>
    have completed := settled.trans (settled.safe.spares_complete sparing key)
    dsimp only
    split
    · exact completed.trans (spares _ _ completed.safe)
    · exact completed

theorem Safe.spares_checkUp {cascade : Cascade} (sparing : Sparing cascade) (levels : Nat)
    {network : Network} (safe : network.Safe) (key : Address) :
    network.Spares (checkUp cascade levels network key).2 := by
  induction levels generalizing network key with
  | zero => exact spares_attempt sparing (fun _ _ safe => safe.spares_refl) safe key
  | succ levels ih => exact spares_attempt sparing (fun _ above safe => ih safe above) safe key

theorem Safe.spares_handle {network : Network} (safe : network.Safe) (event : Event) :
    network.Spares (network.handle event) := by
  cases event with
  | check key => exact safe.spares_checkUp sparing_id key.path.length key
  | resolve waiter source =>
    have satisfied := safe.spares_satisfy waiter source
    unfold handle resolveEdge
    dsimp only
    generalize network.satisfy waiter source = outcome at *
    obtain ⟨newly, later⟩ := outcome
    cases newly with
    | false => exact satisfied
    | true =>
      exact satisfied.trans (satisfied.safe.spares_checkUp sparing_id waiter.path.length waiter)

theorem Safe.spares_drainSteps (steps : Nat) {network : Network} (safe : network.Safe) :
    network.Spares (network.drainSteps steps) := by
  induction steps generalizing network with
  | zero =>
    unfold drainSteps
    split
    · exact safe.spares_refl
    · exact safe.spares_of_trees rfl
  | succ steps ih =>
    unfold drainSteps
    split
    · exact safe.spares_refl
    · rename_i event agenda _
      have taken : network.Spares ({ network with agenda } : Network).countEvent :=
        safe.spares_of_trees rfl
      have handled := taken.trans (taken.safe.spares_handle event)
      exact handled.trans (ih handled.safe)

/-- Whatever a cascade works off, primary data stays as it is. -/
theorem sparing_drain : Sparing drain :=
  fun network safe => safe.spares_drainSteps network.maxSteps

theorem Safe.spares_activate {network : Network} (safe : network.Safe) (key : Address) :
    network.Spares (network.activate key) := by
  have active := safe.spares_activateFrom key
  exact active.trans (sparing_drain _ active.safe)

theorem Safe.spares_settle {network : Network} (safe : network.Safe) :
    network.Spares network.settle := by
  have queued := safe.spares_updateAgenda fun agenda => agenda.pushChecks network.unsettled
  exact queued.trans (sparing_drain _ queued.safe)

/-! ## Clearing -/

theorem value?_dropValue (network : Network) (key query : Address) :
    (network.dropValue key).value? query = if query = key then none else network.value? query := by
  unfold dropValue value?
  rw [cell?_updateCell]
  split
  · cases network.cell? key <;> rfl
  · rfl

theorem value?_foldl_dropValue {handle : Handle} {path : Path} (paths : List Path)
    {network : Network} (gone : path ∈ paths ∨ network.value? ⟨handle, path⟩ = none) :
    (paths.foldl (fun network path => network.dropValue ⟨handle, path⟩) network).value?
      ⟨handle, path⟩ = none := by
  induction paths generalizing network with
  | nil => exact gone.resolve_left List.not_mem_nil
  | cons first rest ih =>
    refine ih ?_
    by_cases same : path = first
    · exact Or.inr (by simp [value?_dropValue, same])
    · refine gone.imp (fun member => (List.mem_cons.1 member).resolve_left same) fun blank => ?_
      simp [value?_dropValue, same, blank]

theorem value?_foldl_eraseLeaf {handle : Handle} {query : Address} (paths : List Path)
    {network : Network} (blank : network.value? query = none) :
    (paths.foldl (eraseLeaf handle) network).value? query = none := by
  induction paths generalizing network with
  | nil => exact blank
  | cons first rest ih =>
    refine ih ?_
    unfold eraseLeaf
    unfold value? cell? at blank ⊢
    rw [tree?_updateTree]
    split
    · rename_i same
      rw [same] at blank
      cases live : network.tree? handle with
      | none => rfl
      | some tree =>
        rw [live] at blank
        dsimp only [Option.map_some, Option.bind_eq_bind, Option.bind_some] at blank ⊢
        split
        · rw [Tree.cell?_erase]
          split
          · rfl
          · exact blank
        · exact blank
    · exact blank

/-- Clearing asks neither whether the key nor whether what is below it is known. -/
theorem value?_clearKey {network : Network} (rooted : network.Rooted) {key query : Address}
    (same : query.tree = key.tree) (within : query.path.isWithin key.path = true) :
    (network.clearKey key).value? query = none := by
  obtain ⟨handle, path⟩ := query
  obtain rfl : handle = key.tree := same
  unfold clearKey
  split
  · rename_i absent
    unfold value? cell?
    rw [absent]
    rfl
  rename_i tree live
  refine value?_foldl_eraseLeaf _ (value?_foldl_dropValue _ ?_)
  by_cases top : path = key.path
  · exact Or.inr (by simp [value?_dropValue, top])
  · have other : (⟨key.tree, path⟩ : Address) ≠ key := fun equal => top (congrArg Address.path equal)
    rw [value?_dropValue, if_neg other]
    cases found : tree.cell? path with
    | none =>
      have held : network.tree? (⟨key.tree, path⟩ : Address).tree = some tree := live
      exact Or.inr (by simp [value?, cell?_of_tree? held, found])
    | some cell =>
      have below := Tree.mem_drop_subtree (rooted _ tree live) found within top
      exact Or.inl (List.mem_map.2 ⟨(path, cell), below, rfl⟩)

end Network

end ConceptLaws.Propagation
