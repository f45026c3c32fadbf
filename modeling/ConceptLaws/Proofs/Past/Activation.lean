import ConceptLaws.Proofs.Past.Tree
import ConceptLaws.Propagation.DataTree
import ConceptLaws.Propagation.Execution

/-! Networks, data trees, activation and execution with a past.
The elementary operations on a network do the same to one whose trees have a past. A tree that is made
takes the same slot, as long as the free list is sound. What is written to a data tree, cleared in it,
shown of it and exported from it depends on its paths and values, which a past leaves as they are. An
activation walks over the same keys in the same order, and a command finds the values of the same
sources and writes them to the same targets. -/

namespace ConceptLaws.Past

open Propagation

variable (past : Past)

/-! ## The agenda -/

def event : Event → Event
  | .resolve waiter source => .resolve (past.key waiter) (past.key source)
  | .check key => .check (past.key key)

def agenda (agenda : Agenda) : Agenda :=
  ⟨agenda.events.map past.event, past.addresses.set agenda.checks⟩

section agendas

variable (agenda : Agenda)

@[simp] theorem empty_agenda : past.agenda .empty = .empty := by
  simp [Past.agenda, Agenda.empty]

@[simp] theorem pushResolve_agenda (waiter source : Address) :
    (past.agenda agenda).pushResolve (past.key waiter) (past.key source) =
      past.agenda (agenda.pushResolve waiter source) := by
  simp [Past.agenda, Agenda.pushResolve, Past.event]

@[simp] theorem pushCheck_agenda (key : Address) :
    (past.agenda agenda).pushCheck (past.key key) = past.agenda (agenda.pushCheck key) := by
  unfold Agenda.pushCheck
  simp only [Past.agenda, Renaming.contains_set]
  split
  · rfl
  · simp [Past.event]

theorem foldl_pushCheck_agenda (keys : List Address) :
    (keys.map past.key).foldl Agenda.pushCheck (past.agenda agenda) =
      past.agenda (keys.foldl Agenda.pushCheck agenda) := by
  induction keys generalizing agenda with
  | nil => rfl
  | cons first rest ih => simp only [List.map_cons, List.foldl_cons, pushCheck_agenda, ih]

@[simp] theorem pushChecks_agenda (keys : List Address) :
    (past.agenda agenda).pushChecks (keys.map past.key) =
      past.agenda (agenda.pushChecks keys) := by
  have sorted : (keys.map past.key).mergeSort (fun left right => (compare left right).isLE) =
      (keys.mergeSort fun left right => (compare left right).isLE).map past.key :=
    (List.map_mergeSort fun left _ right _ => by rw [past.addresses.ordered]).symm
  rw [Agenda.pushChecks, sorted, foldl_pushCheck_agenda]
  rfl

@[simp] theorem pop?_agenda : (past.agenda agenda).pop? =
    agenda.pop?.map fun popped => (past.event popped.1, past.agenda popped.2) := by
  obtain ⟨events, checks⟩ := agenda
  cases events with
  | nil => rfl
  | cons first rest => cases first <;> simp [Agenda.pop?, Past.agenda, Past.event]

end agendas

/-! ## Networks -/

/-- The network in place of a new one. -/
def network (network : Network) : Network :=
  { network with
    trees := past.arena past.tree network.trees
    agenda := past.agenda network.agenda }

section networks

variable (network : Network)

@[simp] theorem maxSteps_network : (past.network network).maxSteps = network.maxSteps := rfl

@[simp] theorem agenda_network :
    (past.network network).agenda = past.agenda network.agenda := rfl

@[simp] theorem withAgenda_network (agenda : Agenda) :
    { past.network network with agenda := past.agenda agenda } =
      past.network { network with agenda } := rfl

@[simp] theorem tree?_network (handle : Handle) :
    (past.network network).tree? (past.handle handle) = (network.tree? handle).map past.tree :=
  past.get?_arena past.tree network.trees handle

@[simp] theorem cell?_network (key : Address) :
    (past.network network).cell? (past.key key) = (network.cell? key).map past.cell := by
  unfold Network.cell?
  rw [tree_key, tree?_network]
  cases network.tree? key.tree <;> simp

@[simp] theorem value?_network (key : Address) :
    (past.network network).value? (past.key key) = network.value? key := by
  unfold Network.value?
  rw [cell?_network]
  cases network.cell? key <;> rfl

@[simp] theorem isPropagated_network (key : Address) :
    (past.network network).isPropagated (past.key key) = network.isPropagated key := by
  simp [Network.isPropagated, Function.comp_def]

@[simp] theorem isActive_network (key : Address) :
    (past.network network).isActive (past.key key) = network.isActive key := by
  simp [Network.isActive, Function.comp_def]

theorem updateTree_network (handle : Handle) {before after : Tree → Tree}
    (carried : ∀ tree, after (past.tree tree) = past.tree (before tree)) :
    (past.network network).updateTree (past.handle handle) after =
      past.network (network.updateTree handle before) := by
  simp only [Network.updateTree, Past.network,
    past.update_arena past.tree network.trees handle carried]

theorem updateCell_network (key : Address) {before after : Cell → Cell}
    (carried : ∀ cell, after (past.cell cell) = past.cell (before cell)) :
    (past.network network).updateCell (past.key key) after =
      past.network (network.updateCell key before) :=
  past.updateTree_network network key.tree fun tree => past.update_tree tree key.path carried

@[simp] theorem ensure_network (key : Address) :
    (past.network network).ensure (past.key key) = past.network (network.ensure key) :=
  past.updateTree_network network key.tree fun tree => past.ensure_tree tree key.path

theorem ensureWith_network (key : Address) {before after : Cell → Cell}
    (carried : ∀ cell, after (past.cell cell) = past.cell (before cell)) :
    (past.network network).ensureWith (past.key key) after =
      past.network (network.ensureWith key before) := by
  refine past.updateTree_network network key.tree fun tree => ?_
  rw [path_key, ensure_tree, past.update_tree (tree.ensure key.path) key.path carried]

theorem updateAgenda_network {before after : Agenda → Agenda}
    (carried : after (past.agenda network.agenda) = past.agenda (before network.agenda)) :
    (past.network network).updateAgenda after = past.network (network.updateAgenda before) := by
  simp only [Network.updateAgenda, Past.network, carried]

@[simp] theorem updateCounts_network (change : Counts → Counts) :
    (past.network network).updateCounts change = past.network (network.updateCounts change) := rfl

@[simp] theorem markChanged_network (entity : EntityId) :
    (past.network network).markChanged entity = past.network (network.markChanged entity) := rfl

@[simp] theorem takeChanged_network : (past.network network).takeChanged =
    (network.takeChanged.1, past.network network.takeChanged.2) := rfl

theorem create_network {network : Network} (sound : network.trees.Sound) (role : Role) :
    (past.network network).create (past.role role) =
      (past.handle (network.create role).1, past.network (network.create role).2) := by
  simp only [Network.create, Past.network, ofRole_tree, past.allocate_arena past.tree sound]

@[simp] theorem remove_network (handle : Handle) :
    (past.network network).remove (past.handle handle) =
      ((network.remove handle).1, past.network (network.remove handle).2) := by
  simp only [Network.remove, Past.network, past.deallocate_arena past.tree, Option.isSome_map]

theorem total_network {measure : Tree → Nat}
    (same : ∀ tree, measure (past.tree tree) = measure tree) :
    (past.network network).total measure = network.total measure := by
  simp only [Network.total, Past.network, entries_arena, List.foldr_map, same]

@[simp] theorem edgeCount_network : (past.network network).edgeCount = network.edgeCount :=
  past.total_network network past.edgeCount_tree

@[simp] theorem pendingWeight_network :
    (past.network network).pendingWeight = network.pendingWeight :=
  past.total_network network past.pendingWeight_tree

end networks

/-- A run of steps, each of which does the same to a network with a past. -/
theorem foldl_network {β : Type} {before after : Network → β → Network}
    (carried : ∀ network item,
      after (past.network network) item = past.network (before network item))
    (items : List β) (network : Network) :
    items.foldl after (past.network network) = past.network (items.foldl before network) := by
  induction items generalizing network with
  | nil => rfl
  | cons first rest ih => simp only [List.foldl_cons, carried, ih]

end ConceptLaws.Past

/-! ## Data trees -/

namespace ConceptLaws.Past

open Propagation

variable (past : Past) (network : Network)

@[simp] theorem seed_network (tree : Handle) (path : Path) (value : Datum) (known : Bool) :
    (past.network network).seed (past.handle tree) path value known =
      past.network (network.seed tree path value known) :=
  past.ensureWith_network network ⟨tree, path⟩ fun _ => rfl

@[simp] theorem dataRole?_network (handle : Handle) :
    (past.network network).dataRole? (past.handle handle) = network.dataRole? handle := by
  unfold Network.dataRole?
  rw [tree?_network]
  cases network.tree? handle with
  | none => rfl
  | some tree =>
    obtain ⟨role, keys⟩ := tree
    cases role <;> rfl

@[simp] theorem precedence?_network (handle : Handle) :
    (past.network network).precedence? (past.handle handle) = network.precedence? handle := by
  simp [Network.precedence?]

@[simp] theorem noteChange_network (key : Address) :
    (past.network network).noteChange (past.key key) = past.network (network.noteChange key) := by
  unfold Network.noteChange
  simp only [path_key, tree_key, dataRole?_network]
  split <;> rfl

@[simp] theorem write_network (key : Address) (value : Datum) :
    (past.network network).write (past.key key) value =
      ((network.write key value).1, past.network (network.write key value).2) := by
  have written : (past.network network).ensureWith (past.key key) (fun cell =>
      { cell.replace (some value) with locked := true }) =
        past.network (network.ensureWith key fun cell =>
          { cell.replace (some value) with locked := true }) :=
    past.ensureWith_network network key fun _ => rfl
  unfold Network.write
  rw [tree_key, tree?_network]
  cases network.tree? key.tree with
  | none => rfl
  | some tree =>
    simp only [Option.map_some, path_key, isUnderKnown_tree, written, noteChange_network]
    split <;> rfl

@[simp] theorem nextChildNumber_tree (tree : Tree) (path : Path) :
    Network.nextChildNumber (past.tree tree) path = Network.nextChildNumber tree path := by
  simp [Network.nextChildNumber]

@[simp] theorem appendChild_network (key : Address) (value : Datum) :
    (past.network network).appendChild (past.key key) value =
      ((network.appendChild key value).1, past.network (network.appendChild key value).2) := by
  unfold Network.appendChild
  rw [tree_key, tree?_network]
  cases network.tree? key.tree <;> simp

@[simp] theorem appendValue_network (key : Address) (value : Datum) :
    (past.network network).appendValue (past.key key) value =
      ((network.appendValue key value).1, past.network (network.appendValue key value).2) := by
  unfold Network.appendValue
  rw [value?_network]
  cases network.value? key <;> simp

@[simp] theorem dropValue_network (key : Address) :
    (past.network network).dropValue (past.key key) = past.network (network.dropValue key) :=
  past.updateCell_network network key fun cell => past.replace_cell cell none

@[simp] theorem eraseLeaf_network (handle : Handle) (path : Path) :
    Network.eraseLeaf (past.handle handle) (past.network network) path =
      past.network (Network.eraseLeaf handle network path) := by
  refine past.updateTree_network network handle fun tree => ?_
  simp only [descendants_tree, List.isEmpty_map, erase_tree]
  split <;> rfl

@[simp] theorem clearKey_network (key : Address) :
    (past.network network).clearKey (past.key key) = past.network (network.clearKey key) := by
  unfold Network.clearKey
  rw [tree_key, tree?_network]
  cases network.tree? key.tree with
  | none => rfl
  | some tree =>
    have dropped (paths : List Path) (network : Network) :
        paths.foldl (fun network path => network.dropValue ⟨past.handle key.tree, path⟩)
            (past.network network) =
          past.network (paths.foldl (fun network path => network.dropValue ⟨key.tree, path⟩)
            network) :=
      past.foldl_network (fun network path => past.dropValue_network network ⟨key.tree, path⟩)
        paths network
    have erased (paths : List Path) (network : Network) :
        paths.foldl (Network.eraseLeaf (past.handle key.tree)) (past.network network) =
          past.network (paths.foldl (Network.eraseLeaf key.tree) network) :=
      past.foldl_network (fun network path => past.eraseLeaf_network network key.tree path)
        paths network
    simp only [Option.map_some, path_key, subtree_tree, ← List.map_drop, List.filter_map,
      List.map_map, Function.comp_def, isUnlinked_cell, dropValue_network, dropped, erased]

/-! ## What is shown -/

@[simp] theorem field?_network (key : Address) :
    (past.network network).field? (past.key key) = network.field? key := by
  rw [Network.field?, cell?_network, Option.map_map]
  rfl

theorem value_tree (tree : Tree) (path : Path) :
    ((past.tree tree).cell? path >>= Cell.value) = (tree.cell? path >>= Cell.value) := by
  rw [cell?_tree]
  cases tree.cell? path <;> rfl

theorem exportTree_tree (tree : Tree) (depth : Nat) (path : Path) :
    Network.exportTree (past.tree tree) depth path = Network.exportTree tree depth path := by
  induction depth generalizing path with
  | zero => rfl
  | succ depth ih => simp only [Network.exportTree, children_tree, ih, value_tree]

@[simp] theorem exportKey_network (key : Address) :
    (past.network network).exportKey (past.key key) = network.exportKey key := by
  unfold Network.exportKey
  rw [tree_key, tree?_network]
  cases network.tree? key.tree with
  | none => rfl
  | some tree =>
    have size : (past.tree tree).keys.size = tree.keys.size := Std.ExtTreeMap.size_map
    simp only [Option.map_some, path_key, size, exportTree_tree]

@[simp] theorem partBlocks_tree (tree : Tree) (path : Path) :
    Network.partBlocks (past.tree tree) path = Network.partBlocks tree path := by
  simp only [Network.partBlocks, children_tree, value_tree]

@[simp] theorem renderSymbol_tree (tree : Tree) :
    Network.renderSymbol (past.tree tree) = Network.renderSymbol tree := by
  simp [Network.renderSymbol]

@[simp] theorem aggregateSymbol_network (handle : Handle) :
    (past.network network).aggregateSymbol (past.handle handle) =
      past.network (network.aggregateSymbol handle) := by
  unfold Network.aggregateSymbol
  rw [tree?_network]
  cases network.tree? handle with
  | none => rfl
  | some tree =>
    simp only [Option.map_some, renderSymbol_tree, mk_key]
    exact past.updateCell_network network _ fun cell => rfl

@[simp] theorem symbol?_network (handle : Handle) :
    (past.network network).symbol? (past.handle handle) = network.symbol? handle := by
  unfold Network.symbol?
  rw [mk_key, cell?_network]
  cases network.cell? ⟨handle, symbolPath⟩ <;> rfl

end ConceptLaws.Past

namespace ConceptLaws.Past

open Propagation

variable (past : Past) (network : Network)

/-! ## Activation -/

def walk (walk : Network.ActivationWalk) : Network.ActivationWalk where
  network := past.network walk.network
  stack := walk.stack.map past.key
  seen := past.addresses.set walk.seen
  found := walk.found.map past.key

theorem activateKey_walk (handle : Handle) (walk : Network.ActivationWalk)
    (entry : Path × Cell) :
    Network.activateKey (past.handle handle) (past.walk walk) (entry.1, past.cell entry.2) =
      past.walk (Network.activateKey handle walk entry) := by
  have activated : (past.network walk.network).updateCell (past.key ⟨handle, entry.1⟩)
      (fun cell => { cell with active := true }) =
        past.network (walk.network.updateCell ⟨handle, entry.1⟩
          fun cell => { cell with active := true }) :=
    past.updateCell_network walk.network _ fun _ => rfl
  unfold Network.activateKey
  simp only [active_cell, waiting_cell, Renaming.keys_table, mk_key, Past.walk, activated]
  by_cases active : entry.2.active <;> simp [active]

theorem foldl_activateKey_walk (handle : Handle) (entries : List (Path × Cell))
    (walk : Network.ActivationWalk) :
    (entries.map fun entry => (entry.1, past.cell entry.2)).foldl
        (Network.activateKey (past.handle handle)) (past.walk walk) =
      past.walk (entries.foldl (Network.activateKey handle) walk) := by
  induction entries generalizing walk with
  | nil => rfl
  | cons first rest ih => simp only [List.map_cons, List.foldl_cons, activateKey_walk, ih]

@[simp] theorem activateSubtree_walk (walk : Network.ActivationWalk) (key : Address) :
    Network.activateSubtree (past.walk walk) (past.key key) =
      past.walk (Network.activateSubtree walk key) := by
  have prepared : { past.walk walk with network := past.network (walk.network.ensure key) } =
      past.walk { walk with network := walk.network.ensure key } := rfl
  unfold Network.activateSubtree
  simp only [show (past.walk walk).network = past.network walk.network from rfl, ensure_network,
    tree_key, tree?_network]
  cases (walk.network.ensure key).tree? key.tree with
  | none => rfl
  | some tree => simp only [Option.map_some, path_key, subtree_tree, prepared, foldl_activateKey_walk]

theorem walkActivation_walk (turns : Nat) (walk : Network.ActivationWalk) :
    Network.walkActivation turns (past.walk walk) =
      past.walk (Network.walkActivation turns walk) := by
  induction turns generalizing walk with
  | zero => rfl
  | succ turns ih =>
    have unseen : (past.walk walk).stack.dropWhile (past.walk walk).seen.contains =
        (walk.stack.dropWhile walk.seen.contains).map past.key := by
      simp [Past.walk, List.dropWhile_map, Function.comp_def]
    simp only [Network.walkActivation, unseen]
    cases walk.stack.dropWhile walk.seen.contains with
    | nil => rfl
    | cons key rest =>
      have taken : ({ past.walk walk with
            stack := rest.map past.key
            seen := (past.walk walk).seen.insert (past.key key) } : Network.ActivationWalk) =
          past.walk { walk with stack := rest, seen := walk.seen.insert key } := by
        simp [Past.walk]
      simp only [List.map_cons, taken, activateSubtree_walk, ih]

@[simp] theorem activateFrom_network (key : Address) :
    (past.network network).activateFrom (past.key key) =
      past.network (network.activateFrom key) := by
  have start : (⟨past.network network, [past.key key], ∅, []⟩ : Network.ActivationWalk) =
      past.walk ⟨network, [key], ∅, []⟩ := by
    simp [Past.walk]
  unfold Network.activateFrom
  simp only [edgeCount_network, start, walkActivation_walk]
  exact past.updateAgenda_network _ (past.pushChecks_agenda _ _)

/-! ## Edges -/

@[simp] theorem prepareWaiter_network (waiter : Address) :
    (past.network network).prepareWaiter (past.key waiter) =
      past.network (network.prepareWaiter waiter) := by
  unfold Network.prepareWaiter
  simp only [path_key, tree_key, mk_key, isActive_network]
  exact past.ensureWith_network network waiter fun _ => rfl

@[simp] theorem addEdge_network (waiter source : Address) (callback : Option Callback) :
    (past.network network).addEdge (past.key waiter) (past.key source) callback =
      past.network (network.addEdge waiter source callback) :=
  past.updateCell_network network waiter fun cell => by simp [Past.cell]

theorem addTrigger_network (waiter source : Address) :
    (past.network network).ensureWith (past.key source)
        (fun cell => { cell with triggers := cell.triggers.insert (past.key waiter) }) =
      past.network (network.ensureWith source fun cell =>
        { cell with triggers := cell.triggers.insert waiter }) :=
  past.ensureWith_network network source fun cell => by simp [Past.cell]

@[simp] theorem waitOn_network (waiter source : Address) (callback : Option Callback) :
    (past.network network).waitOn (past.key waiter) (past.key source) callback =
      ((network.waitOn waiter source callback).1,
        past.network (network.waitOn waiter source callback).2) := by
  have pushed (network : Network) : (past.network network).updateAgenda (fun agenda =>
      agenda.pushResolve (past.key waiter) (past.key source)) =
        past.network (network.updateAgenda fun agenda => agenda.pushResolve waiter source) :=
    past.updateAgenda_network network (past.pushResolve_agenda network.agenda waiter source)
  have joined (network : Network) : (((past.network network).cell? (past.key waiter)).map
      fun cell => cell.waiting.contains (past.key source)) =
        (network.cell? waiter).map fun cell => cell.waiting.contains source := by
    simp [Function.comp_def]
  unfold Network.waitOn
  simp only [tree_key, tree?_network, Option.isNone_map, prepareWaiter_network, joined,
    addEdge_network, addTrigger_network, isActive_network, isPropagated_network,
    activateFrom_network]
  split
  · rfl
  split
  · rfl
  · simp only [← apply_ite past.network, pushed]

end ConceptLaws.Past
