import ConceptLaws.Proofs.Propagation.Looks

/-! What an edit may add.
A stride tells where the marks, the edges and the known keys of a later network come from: from the
earlier one, apart from the marks and the edges that it names. -/

namespace ConceptLaws.Propagation.Network

def isKnown (network : Network) (key : Address) : Bool :=
  ((network.cell? key).map Cell.known).getD false

theorem hasEdge_iff_edge? {network : Network} {waiter source : Address} {done : Bool} :
    network.HasEdge waiter source done ↔
      ∃ edge, network.edge? waiter source = some edge ∧ edge.satisfied = done := by
  constructor
  · rintro ⟨cell, edge, found, held, state⟩
    exact ⟨edge, edge?_eq_some_iff.2 ⟨cell, found, held⟩, state⟩
  · rintro ⟨edge, held, state⟩
    obtain ⟨cell, found, waits⟩ := edge?_eq_some_iff.1 held
    exact ⟨cell, edge, found, waits, state⟩

theorem isKnown_iff {network : Network} {key : Address} :
    network.isKnown key = true ↔ ∃ cell, network.cell? key = some cell ∧ cell.known = true := by
  unfold isKnown
  cases network.cell? key <;> simp

/-- The marks and the edges of the later network are those of the earlier one and those named. -/
structure Stride (network later : Network) (marked : Address → Prop)
    (linked : Address → Address → Edge → Prop) : Prop where
  propagated : ∀ key, later.isPropagated key = true → network.isPropagated key = true ∨ marked key
  edges : ∀ waiter source edge, later.edge? waiter source = some edge →
    network.edge? waiter source = some edge ∨ linked waiter source edge
  known : ∀ key, later.isKnown key = true → network.isKnown key = true

abbrev noKey (_ : Address) : Prop := False

abbrev noEdge (_ _ : Address) (_ : Edge) : Prop := False

theorem Stride.mono {network later : Network} {marked marks : Address → Prop}
    {linked links : Address → Address → Edge → Prop} (stride : network.Stride later marked linked)
    (moreMarks : ∀ key, marked key → marks key)
    (moreLinks : ∀ waiter source edge, linked waiter source edge → links waiter source edge) :
    network.Stride later marks links :=
  ⟨fun key done => (stride.propagated key done).imp_right (moreMarks key),
    fun waiter source edge held =>
      (stride.edges waiter source edge held).imp_right (moreLinks waiter source edge),
    stride.known⟩

theorem Stride.trans {first second third : Network} {marked : Address → Prop}
    {linked : Address → Address → Edge → Prop} (earlier : first.Stride second marked linked)
    (later : second.Stride third marked linked) : first.Stride third marked linked :=
  ⟨fun key done => (later.propagated key done).elim (earlier.propagated key) Or.inr,
    fun waiter source edge held =>
      (later.edges waiter source edge held).elim (earlier.edges waiter source edge) Or.inr,
    fun key => earlier.known key ∘ later.known key⟩

theorem stride_refl (network : Network) : network.Stride network noKey noEdge :=
  ⟨fun _ => Or.inl, fun _ _ _ => Or.inl, fun _ => id⟩

/-- Keys that were not there before bring nothing with them. -/
theorem stride_of_origin {network later : Network}
    (origin : ∀ key cell, later.cell? key = some cell →
      cell.Bare ∨ ∃ before, network.cell? key = some before ∧ before.Carries cell) :
    network.Stride later noKey noEdge := by
  refine ⟨fun key done => ?_, fun waiter source edge held => ?_, fun key known => ?_⟩
  · obtain ⟨cell, found, propagated⟩ := isPropagated_iff.1 done
    rcases origin key cell found with bare | ⟨before, foundBefore, carries⟩
    · simp [bare.propagated] at propagated
    · exact Or.inl (isPropagated_iff.2 ⟨before, foundBefore, carries.propagated ▸ propagated⟩)
  · obtain ⟨cell, found, waits⟩ := edge?_eq_some_iff.1 held
    rcases origin waiter cell found with bare | ⟨before, foundBefore, carries⟩
    · simp [bare.waiting] at waits
    · exact Or.inl (edge?_eq_some_iff.2 ⟨before, foundBefore, carries.waiting ▸ waits⟩)
  · obtain ⟨cell, found, isKnown⟩ := isKnown_iff.1 known
    rcases origin key cell found with bare | ⟨before, foundBefore, carries⟩
    · simp [bare.known] at isKnown
    · exact isKnown_iff.2 ⟨before, foundBefore, carries.known ▸ isKnown⟩

theorem Tame.stride {network later : Network} (tame : network.Tame later) :
    network.Stride later noKey noEdge :=
  stride_of_origin tame.origin

theorem Sound.stride_create {network : Network} (sound : network.Sound) (role : Role) :
    network.Stride (network.create role).2 noKey noEdge := by
  refine stride_of_origin fun key cell found => ?_
  rcases sound.cell?_of_create found with old | bare
  · exact Or.inr ⟨cell, old, cell.carries_refl⟩
  · exact Or.inl bare

theorem stride_remove (network : Network) (handle : Handle) :
    network.Stride (network.remove handle).2 noKey noEdge := by
  refine stride_of_origin fun key cell found => ?_
  rw [cell?_remove] at found
  split at found
  · simp at found
  · exact Or.inr ⟨cell, found, cell.carries_refl⟩

theorem Marks.stride {network later : Network} {marked : Address → Prop}
    (marks : network.Marks later marked) : network.Stride later marked noEdge := by
  refine ⟨fun key done => ?_, fun waiter source edge held => ?_, fun key known => ?_⟩
  · obtain ⟨cell, found, propagated⟩ := isPropagated_iff.1 done
    obtain ⟨before, foundBefore, same⟩ := marks.origin found
    exact (same.propagated.1 propagated).imp_left fun was =>
      isPropagated_iff.2 ⟨before, foundBefore, was⟩
  · obtain ⟨cell, found, waits⟩ := edge?_eq_some_iff.1 held
    obtain ⟨before, foundBefore, same⟩ := marks.origin found
    exact Or.inl (edge?_eq_some_iff.2 ⟨before, foundBefore, same.waiting ▸ waits⟩)
  · obtain ⟨cell, found, isKnown⟩ := isKnown_iff.1 known
    obtain ⟨before, foundBefore, same⟩ := marks.origin found
    exact isKnown_iff.2 ⟨before, foundBefore, same.known ▸ isKnown⟩

/-- A change of one key that adds neither marks nor knowledge. -/
theorem stride_updateCell {network : Network} {key : Address} {change : Cell → Cell}
    {linked : Address → Address → Edge → Prop}
    (propagated : ∀ cell, (change cell).propagated = cell.propagated)
    (known : ∀ cell, (change cell).known = cell.known)
    (edges : ∀ (cell : Cell) (source : Address) edge, (change cell).waiting[source]? = some edge →
      cell.waiting[source]? = some edge ∨ linked key source edge) :
    network.Stride (network.updateCell key change) noKey linked := by
  have before : ∀ query cell, (network.updateCell key change).cell? query = some cell →
      network.cell? query = some cell ∨
        query = key ∧ ∃ old, network.cell? query = some old ∧ cell = change old := by
    intro query cell found
    rw [cell?_updateCell] at found
    by_cases same : query = key
    · rw [if_pos same, Option.map_eq_some_iff] at found
      obtain ⟨old, foundOld, rfl⟩ := found
      exact Or.inr ⟨same, old, same ▸ foundOld, rfl⟩
    · rw [if_neg same] at found
      exact Or.inl found
  refine ⟨fun query done => ?_, fun waiter source edge held => ?_, fun query isKnown => ?_⟩
  · obtain ⟨cell, found, complete⟩ := isPropagated_iff.1 done
    rcases before query cell found with old | ⟨-, old, foundOld, rfl⟩
    · exact Or.inl (isPropagated_iff.2 ⟨cell, old, complete⟩)
    · exact Or.inl (isPropagated_iff.2 ⟨old, foundOld, propagated old ▸ complete⟩)
  · obtain ⟨cell, found, waits⟩ := edge?_eq_some_iff.1 held
    rcases before waiter cell found with old | ⟨rfl, old, foundOld, rfl⟩
    · exact Or.inl (edge?_eq_some_iff.2 ⟨cell, old, waits⟩)
    · exact (edges old source edge waits).imp_left fun was =>
        edge?_eq_some_iff.2 ⟨old, foundOld, was⟩
  · obtain ⟨cell, found, set⟩ := isKnown_iff.1 isKnown
    rcases before query cell found with old | ⟨-, old, foundOld, rfl⟩
    · exact isKnown_iff.2 ⟨cell, old, set⟩
    · exact isKnown_iff.2 ⟨old, foundOld, known old ▸ set⟩

/-- Where all keys are the same. -/
theorem stride_of_cells {network later : Network}
    (cells : ∀ key, later.cell? key = network.cell? key) :
    network.Stride later noKey noEdge := by
  refine ⟨fun key done => Or.inl ?_, fun waiter source edge held => Or.inl ?_,
    fun key known => ?_⟩
  · simpa only [isPropagated, cells] using done
  · simpa only [edge?, cells] using held
  · simpa only [isKnown, cells] using known

/-! ## The commands of a network -/

/-- Every tree keeps its role. -/
def SameRoles (network later : Network) : Prop :=
  ∀ handle, (later.tree? handle).map Tree.role = (network.tree? handle).map Tree.role

theorem SameRoles.trans {first second third : Network} (earlier : first.SameRoles second)
    (later : second.SameRoles third) : first.SameRoles third :=
  fun handle => (later handle).trans (earlier handle)

theorem SameRoles.command? {network later : Network} (same : network.SameRoles later)
    (handle : Handle) : later.command? handle = network.command? handle := by
  unfold Network.command?
  rw [same handle]

theorem Tame.sameRoles {network later : Network} (tame : network.Tame later) :
    network.SameRoles later := by
  intro handle
  cases after : later.tree? handle with
  | some tree =>
    obtain ⟨before, live, same⟩ := tame.role handle tree after
    simp [live, same]
  | none =>
    cases live : network.tree? handle with
    | none => rfl
    | some tree =>
      obtain ⟨other, found, -⟩ := tame.evolves.live handle tree live
      simp [after] at found

theorem sameRoles_updateTree {network : Network} {handle : Handle} {change : Tree → Tree}
    (same : ∀ tree, (change tree).role = tree.role) :
    network.SameRoles (network.updateTree handle change) := by
  intro query
  rw [tree?_updateTree]
  by_cases sameHandle : query = handle
  · rw [if_pos sameHandle, sameHandle, Option.map_map]
    congr 1
    exact funext same
  · rw [if_neg sameHandle]

theorem sameRoles_updateCell (network : Network) (key : Address) (change : Cell → Cell) :
    network.SameRoles (network.updateCell key change) :=
  sameRoles_updateTree fun _ => rfl

theorem sameRoles_ensure (network : Network) (key : Address) :
    network.SameRoles (network.ensure key) :=
  sameRoles_updateTree fun _ => rfl

/-! ## Edges that are satisfied and edges that are made -/

/-- Without a callback, satisfying an edge does nothing else. -/
theorem stride_satisfy {network : Network} {waiter source : Address}
    (silent : ∀ edge, network.edge? waiter source = some edge → edge.callback = none) :
    network.Stride (network.satisfy waiter source).2 noKey (fun _ _ edge => edge = ⟨true, none⟩) ∧
      network.SameRoles (network.satisfy waiter source).2 := by
  have unchanged : network.Stride network noKey fun _ _ edge => edge = ⟨true, none⟩ :=
    network.stride_refl.mono (fun _ => id) fun _ _ _ => False.elim
  unfold satisfy
  cases held : network.cell? waiter >>= fun cell => cell.waiting[source]? with
  | none => exact ⟨unchanged, fun _ => rfl⟩
  | some edge =>
    dsimp only
    split
    · exact ⟨unchanged, fun _ => rfl⟩
    · rw [silent edge held]
      refine ⟨stride_updateCell (fun _ => rfl) (fun _ => rfl) fun cell other edge waits => ?_,
        network.sameRoles_updateCell _ _⟩
      simp only [Std.ExtTreeMap.getElem?_insert, Std.compare_eq_iff_eq] at waits
      by_cases same : source = other
      · rw [if_pos same, Option.some.injEq] at waits
        exact Or.inr waits.symm
      · rw [if_neg same] at waits
        exact Or.inl waits

theorem Founded.stride_ensureWith {network : Network} (founded : network.Founded) (key : Address)
    (change : Cell → Cell) (propagated : ∀ cell, (change cell).propagated = cell.propagated)
    (known : ∀ cell, (change cell).known = cell.known)
    (waiting : ∀ cell, (change cell).waiting = cell.waiting) :
    network.Stride (network.ensureWith key change) noKey noEdge ∧
      network.SameRoles (network.ensureWith key change) := by
  rw [ensureWith_eq]
  have ensured := founded.tame_ensure key
  refine ⟨ensured.stride.trans (stride_updateCell propagated known fun cell source edge held => ?_),
    ensured.sameRoles.trans (sameRoles_updateCell _ _ _)⟩
  rw [waiting] at held
  exact Or.inl held

theorem Founded.stride_prepareWaiter {network : Network} (founded : network.Founded)
    (waiter : Address) :
    network.Stride (network.prepareWaiter waiter) noKey noEdge ∧
      network.SameRoles (network.prepareWaiter waiter) :=
  founded.stride_ensureWith waiter _ (fun _ => rfl) (fun _ => rfl) fun _ => rfl

/-- Waiting adds no edge but the one asked for. -/
theorem Sound.stride_waitOn {network : Network} (sound : network.Sound) (waiter source : Address)
    (callback : Option Callback) :
    network.Stride (network.waitOn waiter source callback).2 noKey
        (fun _ _ edge => edge = ⟨false, callback⟩) ∧
      network.SameRoles (network.waitOn waiter source callback).2 := by
  obtain ⟨prepared, roles⟩ := sound.stride_prepareWaiter waiter
  have widen : ∀ {first second : Network}, first.Stride second noKey noEdge →
      first.Stride second noKey fun _ _ edge => edge = ⟨false, callback⟩ :=
    fun stride => stride.mono (fun _ => id) fun _ _ _ => False.elim
  have waiting := sound.waiting waiter source callback
  generalize (network.waitOn waiter source callback).2 = final at waiting ⊢
  cases waiting with
  | stale => exact ⟨widen (stride_refl network), fun _ => rfl⟩
  | present => exact ⟨widen prepared, roles⟩
  | linked live new rouse trees events =>
    rename_i roused
    have added : (network.prepareWaiter waiter).Stride
        ((network.prepareWaiter waiter).addEdge waiter source callback) noKey
        fun _ _ edge => edge = ⟨false, callback⟩ := by
      refine stride_updateCell (fun _ => rfl) (fun _ => rfl) fun cell other edge waits => ?_
      simp only [Std.ExtTreeMap.getElem?_insert, Std.compare_eq_iff_eq] at waits
      by_cases same : source = other
      · rw [if_pos same, Option.some.injEq] at waits
        exact Or.inr waits.symm
      · rw [if_neg same] at waits
        exact Or.inl waits
    have founded := (sound.advances_prepareWaiter waiter).sound.addEdge waiter source callback
    obtain ⟨triggered, triggeredRoles⟩ := founded.stride_ensureWith source
      (fun cell => { cell with triggers := cell.triggers.insert waiter })
      (fun _ => rfl) (fun _ => rfl) fun _ => rfl
    have linkedRoles : (network.prepareWaiter waiter).SameRoles
        ((network.prepareWaiter waiter).link waiter source callback) :=
      (sameRoles_updateCell _ waiter _).trans triggeredRoles
    have told : roused.Stride final noKey noEdge ∧ roused.SameRoles final := by
      obtain ⟨otherTrees, agenda, maxSteps, counts, changed⟩ := final
      obtain rfl : otherTrees = roused.trees := trees
      exact ⟨stride_of_cells fun _ => rfl, fun _ => rfl⟩
    exact ⟨(((widen prepared).trans added).trans (widen triggered)).trans
        (widen (rouse.stride.trans told.1)),
      ((roles.trans linkedRoles).trans rouse.sameRoles).trans told.2⟩

theorem Sound.waits_of_waitOn {network : Network} (sound : network.Sound) {waiter source : Address}
    (waiterLive : (network.tree? waiter.tree).isSome)
    (sourceLive : (network.tree? source.tree).isSome) (callback : Option Callback) :
    (network.waitOn waiter source callback).2.Waits waiter source := by
  have waiting := sound.waiting waiter source callback
  have prepared := sound.advances_prepareWaiter waiter
  generalize (network.waitOn waiter source callback).2 = final at waiting ⊢
  cases waiting with
  | stale dead => rcases dead with dead | dead <;> simp_all
  | present held => exact ⟨_, hasEdge_iff_edge?.2 ⟨_, held, rfl⟩⟩
  | linked live new rouse trees events =>
    have there : ∃ cell, (network.prepareWaiter waiter).cell? waiter = some cell := by
      unfold prepareWaiter
      rw [ensureWith_eq]
      obtain ⟨cell, found⟩ := cell?_ensure_self sound.rooted waiterLive
      simp [found]
    obtain ⟨cell, found⟩ := there
    have made : ((network.prepareWaiter waiter).addEdge waiter source callback).Waits waiter
        source := by
      refine ⟨false, { cell with waiting := cell.waiting.insert source ⟨false, callback⟩ },
        ⟨false, callback⟩, ?_, Std.ExtTreeMap.getElem?_insert_self, rfl⟩
      simp [addEdge, found]
    have joined : ((network.prepareWaiter waiter).addEdge waiter source callback).Evolves
        ((network.prepareWaiter waiter).link waiter source callback) := by
      have ensured := (prepared.sound.addEdge waiter source callback).tame_ensure source
      unfold link
      rw [ensureWith_eq]
      exact ensured.evolves.trans (evolves_updateCell fun cell _ => ⟨id, id,
        fun _ edge waits => ⟨edge, waits, id⟩,
        fun other member => Std.ExtTreeSet.mem_insert.2 (Or.inr member)⟩)
    exact ((made.evolve joined).evolve rouse.evolves).evolve (evolves_of_trees trees)

/-! ## Commands that are executed -/

theorem command?_setCommand {network : Network} {handle : Handle} {command : Command.Compiled}
    (found : network.command? handle = some command) (later : Command.Compiled) (query : Handle) :
    (network.setCommand handle later).command? query =
      if query = handle then some later else network.command? query := by
  obtain ⟨tree, live, role⟩ := command?_eq_some_iff.1 found
  unfold setCommand Network.command?
  rw [tree?_updateTree]
  by_cases same : query = handle <;> simp [same, live]

theorem cell?_setCommand (network : Network) (handle : Handle) (command : Command.Compiled)
    (key : Address) : (network.setCommand handle command).cell? key = network.cell? key := by
  unfold setCommand cell?
  rw [tree?_updateTree]
  by_cases same : key.tree = handle
  · rw [if_pos same, same]
    cases network.tree? handle <;> rfl
  · rw [if_neg same]

/-- The command whose root is the key, if it is one, counts as executed, and the other commands are
what they were. -/
def Runs (network later : Network) (key : Address) : Prop :=
  ∀ handle, later.command? handle = if Address.ofTree handle = key then
    (network.command? handle).map fun command => { command with executed := true }
  else network.command? handle

theorem runs_of_ordinary {network later : Network} {key : Address}
    (ordinary : key.path ≠ Path.root ∨ network.command? key.tree = none)
    (same : network.SameRoles later) : network.Runs later key := by
  intro handle
  rw [same.command?]
  by_cases root : Address.ofTree handle = key
  · subst root
    have absent : network.command? handle = none := ordinary.resolve_left fun lower => lower rfl
    simp [absent]
  · rw [if_neg root]

theorem Runs.congr {network first second : Network} {key : Address}
    (runs : network.Runs first key) (same : first.SameRoles second) : network.Runs second key :=
  fun handle => (same.command? handle).trans (runs handle)

/-- A command that binds nothing touches values and is executed. -/
theorem Sound.stride_execute {network : Network} (sound : network.Sound) (cascade : Cascade)
    {handle : Handle} {command : Command.Compiled} (found : network.command? handle = some command)
    (unbound : command.bind = none) :
    network.Stride (network.execute cascade handle) noKey noEdge ∧
      network.Runs (network.execute cascade handle) (.ofTree handle) := by
  have only : ∀ query, Address.ofTree query = Address.ofTree handle ↔ query = handle :=
    fun query => ⟨fun same => congrArg Address.tree same, congrArg Address.ofTree⟩
  unfold execute
  simp only [found]
  cases executed : command.executed with
  | true =>
    refine ⟨stride_refl network, fun query => ?_⟩
    by_cases same : query = handle
    · subst same
      have unchanged : { command with executed := true } = command := by
        cases command
        simp_all
      simp [found, unchanged]
    · simp [only, same]
  | false =>
    have marked := sound.advances_setCommand found { command with executed := true }
    have stride : network.Stride
        (network.setCommand handle { command with executed := true }) noKey noEdge :=
      stride_of_cells (network.cell?_setCommand handle _)
    have runs : network.Runs
        (network.setCommand handle { command with executed := true }) (.ofTree handle) := by
      intro query
      rw [command?_setCommand found]
      by_cases same : query = handle
      · simp [same, found]
      · simp [only, same]
    simp only [Bool.false_eq_true, ↓reduceIte]
    split
    · exact ⟨stride, runs⟩
    · rename_i target _
      split
      · rename_i name bound
        simp [unbound] at bound
      · have carried := marked.sound.tame_carryOut command target
        exact ⟨stride.trans carried.stride, runs.congr carried.sameRoles⟩

theorem Sound.stride_runKey {network : Network} (sound : network.Sound) (cascade : Cascade)
    (key : Address)
    (unbound : ∀ command, network.command? key.tree = some command → command.bind = none) :
    network.Stride (network.runKey cascade key) noKey noEdge ∧
      network.Runs (network.runKey cascade key) key := by
  by_cases ordinary : key.path ≠ Path.root ∨ network.command? key.tree = none
  · obtain ⟨marks, -⟩ := marks_runKey cascade ordinary
    exact ⟨marks.stride, runs_of_ordinary ordinary marks.role⟩
  · obtain ⟨root, some_⟩ := not_or.1 ordinary
    obtain ⟨command, found⟩ := Option.ne_none_iff_exists'.1 some_
    obtain ⟨tree, live, role⟩ := command?_eq_some_iff.1 found
    obtain ⟨handle, path⟩ := key
    obtain rfl : path = Path.root := Decidable.not_not.1 root
    have ran : network.runKey cascade ⟨handle, Path.root⟩ = network.execute cascade handle := by
      simp [runKey, live, role]
    rw [ran]
    exact sound.stride_execute cascade found (unbound command found)

/-- Where commands bind nothing, completing a key marks it with what is ready below it, and executes
the command whose root it is. -/
theorem Sound.stride_complete {cascade : Cascade} {network : Network} (sound : network.Sound)
    (orderly : Orderly cascade) {key : Address} {tree : Tree}
    (ready : network.standing key = .ready) (live : network.tree? key.tree = some tree)
    (unbound : ∀ command, network.command? key.tree = some command → command.bind = none) :
    network.Stride (network.complete cascade key)
        (fun query => query.tree = key.tree ∧
          (query.path = key.path ∨ query.path ∈ (tree.following key.path).ready)) noEdge ∧
      network.Runs (network.complete cascade key) key := by
  obtain ⟨below, -⟩ := sound.advances_completeBelow orderly ready live
  have marks := marks_completeBelow cascade network key tree
  have roles : network.SameRoles (network.completeBelow cascade key tree) := marks.role
  rw [complete_eq cascade live]
  generalize network.completeBelow cascade key tree = later at *
  obtain ⟨ran, runs⟩ := below.sound.stride_runKey cascade key fun command found =>
    unbound command ((roles.command? key.tree).symm.trans found)
  have told := marks_propagateKey (later.runKey cascade key) key
  have pushed : ((later.runKey cascade key).propagateKey key).Stride
      ((later.runAndPropagate cascade key).updateAgenda fun agenda => agenda.pushChecks
        ((tree.following key.path).deferred.map fun path => ⟨key.tree, path⟩)) noKey noEdge :=
    stride_of_cells fun _ => rfl
  have widen : ∀ {first second : Network} {marked : Address → Prop},
      first.Stride second marked noEdge → (∀ query, marked query → query.tree = key.tree ∧
        (query.path = key.path ∨ query.path ∈ (tree.following key.path).ready)) →
      first.Stride second (fun query => query.tree = key.tree ∧
        (query.path = key.path ∨ query.path ∈ (tree.following key.path).ready)) noEdge :=
    fun stride within => stride.mono within fun _ _ _ => id
  refine ⟨(((widen marks.stride fun _ inside => ⟨inside.1, Or.inr inside.2⟩).trans
    (widen ran fun _ => False.elim)).trans (widen told.stride ?_)).trans
    (widen pushed fun _ => False.elim), fun handle => ?_⟩
  · rintro query rfl
    exact ⟨rfl, Or.inl rfl⟩
  · have toldRoles : (later.runKey cascade key).SameRoles
        ((later.runAndPropagate cascade key).updateAgenda fun agenda => agenda.pushChecks
          ((tree.following key.path).deferred.map fun path => ⟨key.tree, path⟩)) := told.role
    rw [toldRoles.command? handle, runs handle, roles.command? handle]

end ConceptLaws.Propagation.Network
