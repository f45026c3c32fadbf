import ConceptLaws.Proofs.Command.Calls
import Mathlib.Logic.Relation

/-! Motions of a network.
What a cascade does comes down to a few kinds of motion, one key, one role or one edge at a time. No
tree comes or goes in a cascade, and the only keys that it activates by itself are those of
variables; what an edge rouses when its callback is run belongs to the motion that satisfies it.
Operations from outside add waiting, activation, and trees that come and go. Deactivation and
clearing are left out. -/

namespace ConceptLaws.Propagation

/-- The cells are as active and hold the same edges and triggers. -/
structure Cell.SameTies (cell later : Cell) : Prop where
  active : later.active = cell.active
  waiting : later.waiting = cell.waiting
  triggers : later.triggers = cell.triggers

namespace Network

variable {network later : Network}

/-! ## Keys that are left alone -/

theorem triggers_congr {key : Address} (same : later.cell? key = network.cell? key) :
    later.triggers key = network.triggers key := by
  unfold triggers
  rw [same]

theorem edge?_congr {waiter source : Address} (same : later.cell? waiter = network.cell? waiter) :
    later.edge? waiter source = network.edge? waiter source := by
  unfold edge?
  rw [same]

theorem isSome_tree?_updateTree (network : Network) (handle query : Handle)
    (change : Tree → Tree) :
    ((network.updateTree handle change).tree? query).isSome = (network.tree? query).isSome := by
  rw [tree?_updateTree]
  split
  · rename_i same
    rw [same, Option.isSome_map]
  · rfl

theorem cell?_recast (network : Network) (handle : Handle) (role : Role) (query : Address) :
    (network.updateTree handle fun tree => { tree with role }).cell? query =
      network.cell? query := by
  unfold cell?
  rw [tree?_updateTree]
  split
  · rename_i same
    rw [same]
    cases network.tree? handle <;> rfl
  · rfl

/-- A key that is gone after an erasure is the one that was to be erased. -/
theorem cell?_eraseLeaf (handle : Handle) (network : Network) (path : Path) (query : Address) :
    (eraseLeaf handle network path).cell? query = network.cell? query ∨
      query = ⟨handle, path⟩ ∧ (eraseLeaf handle network path).cell? query = none := by
  unfold eraseLeaf cell?
  rw [tree?_updateTree]
  split
  · rename_i sameTree
    rw [sameTree]
    cases network.tree? handle with
    | none => exact Or.inl rfl
    | some tree =>
      simp only [Option.map_some, Option.bind_eq_bind, Option.bind_some]
      split
      · rw [Tree.cell?_erase]
        split
        · rename_i gone
          refine Or.inr ⟨?_, rfl⟩
          cases query
          simp_all
        · exact Or.inl rfl
      · exact Or.inl rfl
  · exact Or.inl rfl

/-! ## Motions -/

inductive Motion (network : Network) : Network → Prop where
  /-- Agenda, counts and the changed entities are kept beside the trees. -/
  | bookkeeping {later : Network} (trees : later.trees = network.trees) : Motion network later
  | ensure (key : Address) : Motion network (network.ensure key)
  /-- A value or a mark of a key. -/
  | state (key : Address) (change : Cell → Cell)
      (same : ∀ cell : Cell, cell.SameTies (change cell)) :
      Motion network (network.updateCell key change)
  /-- A variable is activated alone, without what lies below it or what it waits on. -/
  | raised {key : Address} (lower : key.path ≠ Path.root)
      (tabled : ∀ tree, network.tree? key.tree = some tree → tree.role.isVariables = true) :
      Motion network (network.updateCell key fun cell => { cell with active := true })
  | role (handle : Handle) {role : Role}
      (same : ∀ tree, network.tree? handle = some tree →
        role.isVariables = tree.role.isVariables) :
      Motion network (network.updateTree handle fun tree => { tree with role })
  /-- Only a key that takes part in no edge is erased, and only one without keys below it. -/
  | erased (handle : Handle) (path : Path)
      (unlinked : ∀ cell, network.cell? ⟨handle, path⟩ = some cell → cell.isUnlinked = true) :
      Motion network (eraseLeaf handle network path)
  | satisfied (waiter source : Address) : Motion network (network.satisfy waiter source).2

/-- Motions one after another. -/
abbrev Motions : Network → Network → Prop := Relation.ReflTransGen Motion

theorem Motion.once (motion : network.Motion later) : network.Motions later := .single motion

/-- Steps of a fold, each of which is a chain, make up a chain. -/
theorem chain_foldl {between : Network → Network → Prop} {σ α : Type} (view : σ → Network)
    {step : σ → α → σ} (items : List α)
    (each : ∀ item ∈ items, ∀ state,
      Relation.ReflTransGen between (view state) (view (step state item))) (state : σ) :
    Relation.ReflTransGen between (view state) (view (items.foldl step state)) := by
  induction items generalizing state with
  | nil => exact .refl
  | cons first rest ih =>
    exact (each first List.mem_cons_self state).trans
      (ih (fun item member => each item (List.mem_cons_of_mem first member)) _)

theorem motions_updateAgenda (network : Network) (change : Agenda → Agenda) :
    network.Motions (network.updateAgenda change) :=
  Motion.once (.bookkeeping rfl)

theorem motions_updateCounts (network : Network) (change : Counts → Counts) :
    network.Motions (network.updateCounts change) :=
  Motion.once (.bookkeeping rfl)

theorem motions_ensureWith (network : Network) (key : Address) (change : Cell → Cell)
    (same : ∀ cell : Cell, cell.SameTies (change cell)) :
    network.Motions (network.ensureWith key change) := by
  rw [ensureWith_eq]
  exact (Motion.once (.ensure key)).tail (.state key change same)

/-! ## Writing -/

theorem motions_noteChange (network : Network) (key : Address) :
    network.Motions (network.noteChange key) := by
  unfold noteChange
  split
  · exact Motion.once (.bookkeeping rfl)
  · exact .refl

theorem motions_write (network : Network) (key : Address) (value : Datum) :
    network.Motions (network.write key value).2 := by
  unfold write
  split
  · exact .refl
  split
  · exact .refl
  · have written : network.Motions (network.ensureWith key fun cell =>
        { cell.replace (some value) with locked := true }) :=
      motions_ensureWith network key _ fun _ => ⟨rfl, rfl, rfl⟩
    exact written.trans (motions_noteChange _ key)

theorem motions_accumulate (network : Network) (operation : Arithmetic.Operator) (key : Address)
    (value : Datum) : network.Motions (network.accumulate operation key value) := by
  unfold accumulate
  split
  · exact network.motions_write key value
  split
  · exact network.motions_write key _
  · exact .refl

theorem motions_appendChild (network : Network) (key : Address) (value : Datum) :
    network.Motions (network.appendChild key value).2 := by
  unfold appendChild
  split
  · exact .refl
  · exact network.motions_write _ value

theorem motions_appendValue (network : Network) (key : Address) (value : Datum) :
    network.Motions (network.appendValue key value).2 := by
  unfold appendValue
  split
  · exact network.motions_write key _
  · exact network.motions_write key _

theorem motions_dropValue (network : Network) (key : Address) :
    network.Motions (network.dropValue key) :=
  Motion.once (.state key (fun cell => cell.replace none) fun _ => ⟨rfl, rfl, rfl⟩)

/-- An erasure leaves what stands elsewhere alone, and what is gone was gone. -/
theorem isUnlinked_eraseLeaf {handle : Handle} {first path : Path}
    (unlinked : ∀ cell, network.cell? ⟨handle, path⟩ = some cell → cell.isUnlinked = true)
    {cell : Cell} (found : (eraseLeaf handle network first).cell? ⟨handle, path⟩ = some cell) :
    cell.isUnlinked = true := by
  obtain ⟨tree, live, present⟩ := cell?_eq_some_iff.1 found
  unfold eraseLeaf at live
  rw [tree?_updateTree, if_pos rfl] at live
  obtain ⟨before, liveBefore, rfl⟩ := Option.map_eq_some_iff.1 live
  refine unlinked cell (cell?_eq_some_iff.2 ⟨before, liveBefore, ?_⟩)
  split at present
  · rw [Tree.cell?_erase] at present
    split at present
    · cases present
    · exact present
  · exact present

theorem motions_foldl_eraseLeaf (handle : Handle) (paths : List Path) (network : Network)
    (unlinked : ∀ path ∈ paths, ∀ cell, network.cell? ⟨handle, path⟩ = some cell →
      cell.isUnlinked = true) :
    network.Motions (paths.foldl (eraseLeaf handle) network) := by
  induction paths generalizing network with
  | nil => exact .refl
  | cons first rest ih =>
    refine .head (.erased handle first (unlinked first List.mem_cons_self)) (ih _ ?_)
    exact fun path member _ =>
      isUnlinked_eraseLeaf (unlinked path (List.mem_cons_of_mem first member))

theorem isUnlinked_dropValue (network : Network) (key query : Address) :
    ((network.dropValue key).cell? query).map Cell.isUnlinked =
      (network.cell? query).map Cell.isUnlinked := by
  unfold dropValue
  rw [cell?_updateCell]
  split
  · rename_i same
    rw [same, Option.map_map]
    rfl
  · rfl

theorem isUnlinked_foldl_dropValue (handle : Handle) (paths : List Path) (network : Network)
    (query : Address) :
    ((paths.foldl (fun network path => network.dropValue ⟨handle, path⟩) network).cell? query).map
      Cell.isUnlinked = (network.cell? query).map Cell.isUnlinked := by
  induction paths generalizing network with
  | nil => rfl
  | cons first rest ih => exact (ih _).trans (network.isUnlinked_dropValue _ query)

theorem motions_clearKey (network : Network) (key : Address) :
    network.Motions (network.clearKey key) := by
  unfold clearKey
  split
  · exact .refl
  rename_i tree live
  dsimp only
  have dropped := (network.motions_dropValue key).trans (chain_foldl id
    (((tree.subtree key.path).drop 1).map Prod.fst)
    (fun path _ (later : Network) => later.motions_dropValue ⟨key.tree, path⟩) _)
  refine dropped.trans (motions_foldl_eraseLeaf _ _ _ fun path member cell found => ?_)
  obtain ⟨⟨listed, before⟩, filtered, rfl⟩ := List.mem_map.1 (List.mem_mergeSort.1 member)
  obtain ⟨below, unlinked⟩ := List.mem_filter.1 filtered
  have present : network.cell? ⟨key.tree, listed⟩ = some before :=
    cell?_eq_some_iff.2 ⟨tree, live, (Tree.mem_subtree.1 (List.mem_of_mem_drop below)).1⟩
  have same : some cell.isUnlinked = some before.isUnlinked := by
    have marks := isUnlinked_foldl_dropValue key.tree (((tree.subtree key.path).drop 1).map Prod.fst)
      (network.dropValue key) ⟨key.tree, listed⟩
    rw [isUnlinked_dropValue, present] at marks
    exact (congrArg (Option.map Cell.isUnlinked) found).symm.trans marks
  exact (Option.some.inj same).trans unlinked

theorem motions_applyAction (network : Network) (action : Command.Action) (key : Address)
    (value : Datum) : network.Motions (network.applyAction action key value) := by
  cases action with
  | assign => exact network.motions_write key value
  | increase => exact network.motions_accumulate _ key value
  | decrease => exact network.motions_accumulate _ key value
  | scale => exact network.motions_accumulate _ key value
  | addChild => exact network.motions_appendChild key value
  | addValue => exact network.motions_appendValue key value
  | clear => exact network.motions_clearKey key

theorem motions_carryOut (network : Network) (command : Command.Compiled) (target : Address) :
    network.Motions (network.carryOut command target) := by
  have counted := network.motions_updateCounts fun counts =>
    { counts with commands := counts.commands + 1 }
  unfold carryOut
  dsimp only
  split
  · exact counted.trans (motions_clearKey _ target)
  · refine counted.trans (chain_foldl id _ (fun result _ (later : Network) => ?_) _)
    obtain ⟨suffix, outcome⟩ := result
    cases outcome with
    | ok value => exact later.motions_applyAction _ _ value
    | error fault => exact .refl

theorem motions_aggregateSymbol (network : Network) (handle : Handle) :
    network.Motions (network.aggregateSymbol handle) := by
  unfold aggregateSymbol
  split
  · exact .refl
  · exact Motion.once (.state _ _ fun _ => ⟨rfl, rfl, rfl⟩)

/-! ## Commands and variables -/

theorem motions_markExecuted {handle : Handle} {command : Command.Compiled}
    (found : network.command? handle = some command) :
    network.Motions (network.markExecuted handle command) := by
  refine Motion.once (.role handle fun tree live => ?_)
  obtain ⟨other, liveOther, role⟩ := command?_eq_some_iff.1 found
  obtain rfl := Option.some.inj (live.symm.trans liveOther)
  rw [role]
  rfl

/-- A cascade is made up of motions. -/
def Moving (cascade : Cascade) : Prop := ∀ network : Network, network.Motions (cascade network)

theorem moving_id : Moving id := fun _ => .refl

variable {cascade : Cascade} (moving : Moving cascade)

include moving

theorem motions_setKnown (network : Network) (key : Address) (recursive : Bool) :
    network.Motions (network.setKnown cascade key recursive) := by
  unfold setKnown
  split
  · exact .refl
  dsimp only
  have top : network.Motions (network.ensureWith key fun cell => { cell with known := true }) :=
    motions_ensureWith network key _ fun _ => ⟨rfl, rfl, rfl⟩
  have below : network.Motions (if recursive then
      (network.ensureWith key fun cell => { cell with known := true }).updateTree key.tree fun tree =>
        (tree.subtreePaths key.path).foldl
          (fun tree path => tree.update path fun cell => { cell with known := true }) tree
      else network.ensureWith key fun cell => { cell with known := true }) := by
    split
    · obtain ⟨paths, same⟩ := updateTree_subtree
        (network.ensureWith key fun cell => { cell with known := true }) key.tree key.path
          fun cell => { cell with known := true }
      rw [same]
      have each (path : Path) (_ : path ∈ paths) (later : Network) :
          later.Motions (later.updateCell ⟨key.tree, path⟩ fun cell => { cell with known := true }) :=
        Motion.once (.state _ _ fun _ => ⟨rfl, rfl, rfl⟩)
      exact top.trans (chain_foldl id paths each _)
    · exact top
  refine .trans ?_ (moving _)
  exact below.tail (.bookkeeping rfl)

theorem motions_bindVariable (network : Network) (variableTable : Handle) (name : String)
    (target : Address) :
    network.Motions (network.bindVariable cascade variableTable name target) := by
  unfold bindVariable
  split
  · rename_i role tabled
    obtain ⟨tree, live, table⟩ := Option.map_eq_some_iff.1 tabled
    have bound : network.Motions (network.updateTree variableTable fun tree =>
        { tree with role := .variableTable { role with
          bindings := role.bindings.insert name target } }) := by
      refine Motion.once (.role variableTable fun other liveOther => ?_)
      obtain rfl := Option.some.inj (live.symm.trans liveOther)
      rw [table]
      rfl
    have active (later : Network) (tables : ∀ tree, later.tree? variableTable = some tree →
        tree.role.isVariables = true) : later.Motions (later.ensureWith
          (variableKey variableTable name) fun cell => { cell with active := true }) := by
      rw [ensureWith_eq]
      refine (Motion.once (.ensure _)).tail (.raised (by simp [variableKey, Path.root])
        fun tree live => ?_)
      simp only [variableKey, tree?_ensure, ↓reduceIte, Option.map_eq_some_iff] at live
      obtain ⟨before, liveBefore, rfl⟩ := live
      exact tables before liveBefore
    refine (bound.trans (active _ fun tree live => ?_)).trans
      (motions_setKnown moving _ _ false)
    simp only [tree?_updateTree, ↓reduceIte, Option.map_eq_some_iff] at live
    obtain ⟨before, -, rfl⟩ := live
    rfl
  · exact .refl

theorem motions_execute (network : Network) (handle : Handle) :
    network.Motions (network.execute cascade handle) := by
  rw [execute_eq]
  split
  · exact .refl
  rename_i command found
  split
  · exact .refl
  have marked := motions_markExecuted found
  split
  · exact marked
  rename_i target _
  have carried := marked.trans (motions_carryOut _ command target)
  split
  · exact carried.trans (motions_bindVariable moving _ _ _ target)
  · exact carried

/-! ## Cascades -/

omit moving in
theorem motions_satisfy (network : Network) (waiter source : Address) :
    network.Motions (network.satisfy waiter source).2 :=
  Motion.once (.satisfied waiter source)

omit moving in
theorem motions_propagateKey (network : Network) (key : Address) :
    network.Motions (network.propagateKey key) := by
  unfold propagateKey
  split
  · exact .refl
  split
  · exact .refl
  · have marked : network.Motions (network.updateCell key fun cell =>
        { cell with propagated := true }) := Motion.once (.state _ _ fun _ => ⟨rfl, rfl, rfl⟩)
    exact marked.tail (.bookkeeping rfl)

theorem motions_runAndPropagate (network : Network) (key : Address) :
    network.Motions (network.runAndPropagate cascade key) := by
  refine .trans ?_ (motions_propagateKey _ key)
  unfold runKey
  split
  · split
    · exact network.motions_aggregateSymbol key.tree
    · exact .refl
  · split
    · exact motions_execute moving network key.tree
    · exact .refl
  · exact .refl

theorem motions_complete (network : Network) (key : Address) :
    network.Motions (network.complete cascade key) := by
  unfold complete
  split
  · exact .refl
  rename_i tree _
  have below := chain_foldl id (tree.following key.path).ready
    (fun path _ later => motions_runAndPropagate moving later ⟨key.tree, path⟩) network
  exact (below.trans (motions_runAndPropagate moving _ key)).tail (.bookkeeping rfl)

omit moving in
theorem motions_satisfyDone (handle : Handle) (edges : List (Path × Address)) (network : Network) :
    network.Motions (network.satisfyDone handle edges).2.2 := by
  induction edges generalizing network with
  | nil => exact .refl
  | cons first rest ih =>
    unfold satisfyDone
    split
    · exact (network.motions_satisfy _ _).trans (ih _)
    · exact ih network

/-- A check is made up of motions. -/
def Asks (probe : Probe) : Prop := ∀ network key, Motions network (probe network key).2

omit moving in
theorem motions_probeAll {probe : Probe} (asks : Asks probe) (handle : Handle)
    (edges : List (Path × Address)) (network : Network) :
    network.Motions (probeAll probe network handle edges).2 := by
  induction edges generalizing network with
  | nil => exact .refl
  | cons first rest ih =>
    have asked := asks network first.2
    unfold probeAll
    generalize probe network first.2 = outcome at asked ⊢
    obtain ⟨succeeded, later⟩ := outcome
    cases succeeded with
    | false => exact asked
    | true => exact (asked.trans (later.motions_satisfy _ _)).trans (ih _)

omit moving in
theorem motions_settleKey (probe : Option Probe) (asks : ∀ ask ∈ probe, Asks ask)
    (key : Address) (turns : Nat) (network : Network) :
    network.Motions (settleKey probe key turns network).2 := by
  induction turns generalizing network with
  | zero => exact .refl
  | succ turns ih =>
    unfold settleKey
    split
    · rename_i edges _
      have satisfied := motions_satisfyDone key.tree edges network
      generalize network.satisfyDone key.tree edges = outcome at satisfied ⊢
      obtain ⟨progressed, left, later⟩ := outcome
      dsimp only
      split
      · exact satisfied.trans (ih later)
      · cases probe with
        | none => exact satisfied
        | some ask =>
          have asked := motions_probeAll (asks ask rfl) key.tree left later
          generalize found : probeAll ask later key.tree left = result at asked
          obtain ⟨succeeded, final⟩ := result
          simp only [found]
          cases succeeded with
          | false => exact satisfied.trans asked
          | true => exact (satisfied.trans asked).trans (ih final)
    · exact .refl

theorem asks_attempt (probe : Option Probe) (asks : ∀ ask ∈ probe, Asks ask)
    {above : Network → Address → Network}
    (movesAbove : ∀ network key, Motions network (above network key)) :
    Asks (attempt cascade probe above) := by
  intro network key
  unfold attempt
  have settled := motions_settleKey probe asks key (network.pendingWeight + 1) network
  generalize settleKey probe key (network.pendingWeight + 1) network = outcome at settled ⊢
  obtain ⟨answer, later⟩ := outcome
  cases answer with
  | complete => exact settled
  | stuck => exact settled
  | «open» edges => exact settled
  | ready =>
    have completed := settled.trans (motions_complete moving later key)
    dsimp only
    split
    · exact completed.trans (movesAbove _ _)
    · exact completed

theorem asks_checkUp (levels : Nat) : Asks (checkUp cascade levels) := by
  induction levels with
  | zero => exact asks_attempt moving none (by simp) fun _ _ => .refl
  | succ levels ih => exact asks_attempt moving none (by simp) ih

theorem asks_check : Asks fun network => network.check cascade :=
  fun network key => asks_checkUp moving key.path.length network key

theorem asks_probeKey (depth : Nat) (visiting : Std.ExtTreeSet Address) :
    Asks (probeKey cascade depth visiting) := by
  induction depth generalizing visiting with
  | zero => exact asks_attempt moving none (by simp) (asks_check moving)
  | succ depth ih =>
    intro network key
    unfold probeKey
    dsimp only
    refine asks_attempt moving _ ?_ (asks_check moving) network key
    split
    · simp
    · rintro ask ⟨⟩
      exact ih (visiting.insert key)

theorem motions_resolveEdge (network : Network) (waiter source : Address) :
    network.Motions (network.resolveEdge cascade waiter source).2 := by
  have satisfied := network.motions_satisfy waiter source
  unfold resolveEdge
  generalize network.satisfy waiter source = outcome at satisfied ⊢
  obtain ⟨newly, later⟩ := outcome
  cases newly with
  | false => exact satisfied
  | true => exact satisfied.trans (asks_check moving later waiter)

omit moving in
theorem motions_handle (network : Network) (event : Event) :
    network.Motions (network.handle event) := by
  cases event with
  | check key => exact asks_check moving_id network key
  | resolve waiter source => exact motions_resolveEdge moving_id network waiter source

omit moving in
theorem motions_drainSteps (steps : Nat) (network : Network) :
    network.Motions (network.drainSteps steps) := by
  induction steps generalizing network with
  | zero =>
    unfold drainSteps
    split
    · exact .refl
    · exact Motion.once (.bookkeeping rfl)
  | succ steps ih =>
    unfold drainSteps
    split
    · exact .refl
    · rename_i event agenda _
      have counted : network.Motions ({ network with agenda } : Network).countEvent :=
        Motion.once (.bookkeeping rfl)
      exact (counted.trans (motions_handle _ event)).trans (ih _)

omit moving in
theorem moving_drain : Moving drain := fun network => motions_drainSteps network.maxSteps network

omit moving in
theorem motions_checkResolved (network : Network) (key : Address) (probe : Bool) :
    network.Motions (network.checkResolved key probe).2 := by
  cases probe with
  | false => exact (asks_check moving_drain network key).trans (moving_drain _)
  | true => exact (asks_probeKey moving_drain maxCheckDepth ∅ network key).trans (moving_drain _)

/-! ## Fields -/

omit moving in
theorem motions_block (network : Network) (key : Address) : network.Motions (network.block key) :=
  motions_ensureWith network key _ fun _ => ⟨rfl, rfl, rfl⟩

omit moving in
theorem Seeded.motions {data : Handle} (seeded : Seeded data network later) :
    network.Motions later := by
  induction seeded with
  | none => exact .refl
  | more _ path value known ih =>
    exact ih.trans (motions_ensureWith _ _ _ fun _ => ⟨rfl, rfl, rfl⟩)

omit moving in
theorem motions_editField {entity : EntityId} {key : Address} {value : Datum}
    {before : Option Datum} (edited : network.editField entity key value = .ok (before, later)) :
    network.Motions later := by
  unfold editField at edited
  split at edited
  · cases edited
  dsimp only at edited
  split at edited
  · cases edited
  obtain ⟨-, rfl⟩ := Prod.mk.inj (Except.ok.inj edited)
  have written : network.Motions ((network.ensure key).updateCell key fun cell =>
      { cell.replace (some value) with known := true }) :=
    (Motion.once (.ensure key)).tail (.state _ _ fun _ => ⟨rfl, rfl, rfl⟩)
  exact written.trans (motions_noteChange _ key)

omit moving in
theorem motions_edit (network : Network) (entity : EntityId) (key : Address) (value : Datum) :
    network.Motions (network.edit entity key value) := by
  unfold edit
  split
  · rename_i edited
    exact motions_editField edited
  · exact .refl

/-! ## Waiting -/

omit moving in
theorem tree?_prepareWaiter (network : Network) (waiter : Address) (handle : Handle) :
    ((network.prepareWaiter waiter).tree? handle).isSome = (network.tree? handle).isSome := by
  unfold prepareWaiter ensureWith
  rw [tree?_updateTree]
  split
  · rename_i same
    rw [same, Option.isSome_map]
  · rfl

/-- A new edge, after which an active waiter activates its source. -/
def linkRoused (network : Network) (waiter source : Address) (callback : Option Callback) :
    Network :=
  if (network.addEdge waiter source callback).isActive waiter then
    (network.link waiter source callback).activateFrom source
  else network.link waiter source callback

/-- What waiting can come to: an edge is added only where there is none, between keys of live
trees. -/
inductive Waited (network : Network) (waiter source : Address) (callback : Option Callback) :
    Network → Prop
  | stale : Waited network waiter source callback network
  | held : Waited network waiter source callback (network.prepareWaiter waiter)
  | linked {later : Network} (waits : ((network.prepareWaiter waiter).cell? waiter).isSome)
      (tells : ((network.prepareWaiter waiter).tree? source.tree).isSome)
      (new : (network.prepareWaiter waiter).edge? waiter source = none)
      (trees : later.trees = ((network.prepareWaiter waiter).linkRoused waiter source callback).trees) :
      Waited network waiter source callback later

omit moving in
theorem waited_waitOn (network : Network) (waiter source : Address) (callback : Option Callback) :
    network.Waited waiter source callback (network.waitOn waiter source callback).2 := by
  unfold waitOn
  split
  · exact .stale
  rename_i live
  simp only [Bool.or_eq_true, not_or, Bool.not_eq_true, Option.isNone_eq_false_iff] at live
  obtain ⟨waiterLive, sourceLive⟩ := live
  obtain ⟨cell, found⟩ := cell?_prepareWaiter waiterLive
  dsimp only
  split
  · exact .held
  rename_i new
  refine .linked (found ▸ rfl)
    ((network.tree?_prepareWaiter waiter source.tree).trans sourceLive) ?_ ?_
  · rw [found] at new
    simpa [edge?, found] using new
  · unfold linkRoused
    split <;> split <;> rfl

/-! ## Operations -/

/-- What is done to a network besides deactivation and clearing: the motions of cascades, and what
is called for from outside. -/
inductive Shift (network : Network) : Network → Prop where
  | motion {later : Network} (motion : network.Motion later) : Shift network later
  | waited (waiter source : Address) (callback : Option Callback) :
      Shift network (network.waitOn waiter source callback).2
  | roused (key : Address) : Shift network (network.activateFrom key)
  | created (role : Role) : Shift network (network.create role).2
  | removed (handle : Handle) : Shift network (network.remove handle).2

/-- Shifts one after another. -/
abbrev Shifts : Network → Network → Prop := Relation.ReflTransGen Shift

omit moving in
theorem Motions.shifts (motions : network.Motions later) : network.Shifts later :=
  Relation.ReflTransGen.mono (fun _ _ => Shift.motion) _ _ motions

omit moving in
theorem shifts_createEntity (network : Network) (entity : Entity) (concept : Concept)
    (precedence : Option Nat) :
    network.Shifts (network.createEntity entity concept precedence).2 := by
  have created : network.Shifts (network.createTrees entity.id precedence) :=
    (Relation.ReflTransGen.single (.created (.data ⟨entity.id, precedence⟩))).tail
      (.created (.variableTable ⟨some entity.id, ∅⟩))
  exact created.trans (network.seeded_createEntity entity concept precedence).motions.shifts

end Network

end ConceptLaws.Propagation

namespace ConceptLaws.Command

open Propagation Propagation.Network

variable (context : Context) (owner : EntityId)

theorem motions_addBlock (trees : EntityTrees) (swapped : Bool) (draft : Draft)
    (block : Block × Nat) :
    draft.network.Motions (draft.addBlock context owner trees swapped block).network := by
  obtain ⟨content, place⟩ := block
  unfold Draft.addBlock
  dsimp only
  split
  · exact .refl
  split
  · exact .refl
  · dsimp only
    split
    · exact motions_bindVariable moving_drain draft.network trees.variableTable _ _
    · exact .refl

theorem shifts_connect (network : Network) (trees : EntityTrees) (root : Address)
    (target : Target) (draft : Draft) :
    network.Shifts (connect network trees root target draft) := by
  unfold connect
  have barred : network.Shifts (if draft.unreachable then network.block root else network) := by
    split
    · exact (motions_block network root).shifts
    · exact .refl
  have waiting := barred.trans (chain_foldl id draft.waits
    (fun wait _ (_ : Network) => .single (.waited root wait.1 wait.2)) _)
  cases target with
  | key address => exact waiting.tail (.waited address root none)
  | bound variableName => exact waiting.tail (.waited root _ _)

theorem shifts_instantiate (trees : EntityTrees) (template : Template) (swapped : Bool)
    (network : Network) (target : Target) :
    network.Shifts (instantiate context owner trees template swapped network target) := by
  rw [instantiate_eq]
  split
  · exact .refl
  have draft : network.Motions
      (drafted context owner trees template swapped network).network :=
    chain_foldl Draft.network template.expression.blocks.zipIdx
      (fun block _ draft => motions_addBlock context owner trees swapped draft block)
      ⟨network, [], [], false⟩
  have planted : network.Shifts
      (planted context owner trees template swapped network target).2 :=
    draft.shifts.tail (.created _)
  dsimp only
  split
  · exact (planted.trans (motions_execute moving_drain _ _).shifts).tail (.removed _)
  · exact planted.trans (shifts_connect _ trees _ target _)

theorem shifts_compileTemplate (template : Template) (swapped : Bool) (network : Network) :
    network.Shifts (compileTemplate context network owner template swapped).2 := by
  unfold compileTemplate
  split
  · exact .refl
  · rename_i trees _
    exact chain_foldl id _ (fun target _ later =>
      shifts_instantiate context owner trees template swapped later target) network

theorem shifts_compileSource (source : String) (network : Network) :
    network.Shifts (compileSource context network owner source).2 := by
  unfold compileSource
  split
  · exact .refl
  rename_i template _
  have first := shifts_compileTemplate context owner template false network
  dsimp only
  split
  · exact first.trans (shifts_compileTemplate context owner template true _)
  · exact first

end ConceptLaws.Command
