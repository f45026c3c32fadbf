import ConceptLaws.Proofs.Arena.Tidy
import ConceptLaws.Proofs.Propagation.Deactivation
import ConceptLaws.Proofs.Propagation.Motion
import Mathlib.Algebra.Ring.Nat

/-! Weights of a network.
The counts that bound the loops are totals over all keys and all edges. Written as sums over one
list of keys and one list of edges, they depend only on what `cell?` and `edge?` answer. -/

namespace ConceptLaws.Propagation

/-! ## Tables -/

/-- A list that holds every entry of a table once. -/
structure Tabulates {κ α : Type} (entries : List (κ × α)) (lookup : κ → Option α) : Prop where
  nodup : entries.Nodup
  mem : ∀ key value, (key, value) ∈ entries ↔ lookup key = some value

variable {κ ι ν α β : Type}

theorem Tabulates.perm {first second : List (κ × α)} {lookup : κ → Option α}
    (left : Tabulates first lookup) (right : Tabulates second lookup) : first.Perm second :=
  (List.perm_ext_iff_of_nodup left.nodup right.nodup).2 fun (key, value) =>
    (left.mem key value).trans (right.mem key value).symm

theorem tabulates_map (map : Std.ExtTreeMap Address α) :
    Tabulates map.toList fun key => map[key]? where
  nodup := by
    refine Std.ExtTreeMap.distinct_keys_toList.imp fun different same => different ?_
    rw [same]
    exact Std.ReflCmp.compare_self
  mem _ _ := Std.ExtTreeMap.mem_toList_iff_getElem?_eq_some

theorem tabulates_keys (tree : Tree) : Tabulates tree.keys.toList tree.cell? where
  nodup := by
    refine Std.ExtTreeMap.distinct_keys_toList.imp fun different same => different ?_
    rw [same]
    exact Std.ReflCmp.compare_self
  mem _ _ := Tree.mem_keys

theorem tabulates_entries (arena : Arena α) : Tabulates arena.entries arena.get? where
  nodup := by
    have ordered := arena.ordered_indices
    unfold Arena.handles at ordered
    rw [List.map_map] at ordered
    refine ordered.of_map _ fun first second before same => ?_
    rw [same] at before
    exact Nat.lt_irrefl _ before
  mem _ _ := Arena.mem_entries

/-- A table of tables, with the keys of both put together. -/
theorem Tabulates.flatMap {outer : List (κ × β)} {find : κ → Option β}
    (tabulates : Tabulates outer find) {inner : β → List (ι × α)} {look : β → ι → Option α}
    (each : ∀ content, Tabulates (inner content) (look content)) {pair : κ → ι → ν}
    (split : ∀ key, ∃ first second, key = pair first second)
    (injective : ∀ {first second other third}, pair first second = pair other third →
      first = other ∧ second = third)
    {lookup : ν → Option α}
    (same : ∀ first second, lookup (pair first second) =
      find first >>= fun content => look content second) :
    Tabulates (outer.flatMap fun entry =>
      (inner entry.2).map fun item => (pair entry.1 item.1, item.2)) lookup := by
  refine ⟨List.nodup_flatMap.2 ⟨fun entry _ => ?_, ?_⟩, fun key value => ?_⟩
  · refine (each entry.2).nodup.map fun first second equal => ?_
    obtain ⟨keys, values⟩ := Prod.mk.inj equal
    exact Prod.ext (injective keys).2 values
  · refine tabulates.nodup.imp_of_mem fun {first second} listed listedToo different => ?_
    rintro item member memberToo
    obtain ⟨lower, -, rfl⟩ := List.mem_map.1 member
    obtain ⟨other, -, equal⟩ := List.mem_map.1 memberToo
    have keys : second.1 = first.1 := (injective (Prod.mk.inj equal).1).1
    have found := (tabulates.mem first.1 first.2).1 listed
    have foundToo := (tabulates.mem second.1 second.2).1 listedToo
    rw [keys, found] at foundToo
    exact different (Prod.ext keys.symm (Option.some.inj foundToo))
  · obtain ⟨first, second, rfl⟩ := split key
    rw [same, List.mem_flatMap]
    simp only [List.mem_map, Prod.exists, Prod.mk.injEq, Option.bind_eq_bind,
      Option.bind_eq_some_iff]
    constructor
    · rintro ⟨other, content, listed, third, found, member, equal, rfl⟩
      obtain ⟨rfl, rfl⟩ := injective equal
      exact ⟨content, (tabulates.mem _ _).1 listed, ((each content).mem _ _).1 member⟩
    · rintro ⟨content, found, held⟩
      exact ⟨first, content, (tabulates.mem _ _).2 found, second, value,
        ((each content).mem _ _).2 held, rfl, rfl⟩

/-- What two tables that differ at one key weigh. -/
theorem Tabulates.sum_add [DecidableEq κ] {entries after : List (κ × α)}
    {lookup later : κ → Option α} (tabulates : Tabulates entries lookup)
    (tabulatesLater : Tabulates after later) (key : κ)
    (elsewhere : ∀ other, other ≠ key → later other = lookup other) (weight : α → Nat) :
    (after.map fun entry => weight entry.2).sum + ((lookup key).map weight).getD 0 =
      (entries.map fun entry => weight entry.2).sum + ((later key).map weight).getD 0 := by
  -- Both tables are what they hold at the key, and what both hold elsewhere.
  have apart {list : List (κ × α)} {find : κ → Option α} (tabulates : Tabulates list find) :
      (list.map fun entry => weight entry.2).sum = ((find key).map weight).getD 0 +
        ((list.filter fun entry => entry.1 ≠ key).map fun entry => weight entry.2).sum := by
    have here : (list.filter fun entry => entry.1 = key).Perm
        ((find key).toList.map fun value => (key, value)) := by
      refine (List.perm_ext_iff_of_nodup (tabulates.nodup.filter _) ?_).2 fun (other, value) => ?_
      · cases find key <;> simp
      · simp only [List.mem_filter, tabulates.mem, decide_eq_true_eq, List.mem_map,
          Option.mem_toList, Prod.mk.injEq]
        constructor
        · rintro ⟨found, rfl⟩
          exact ⟨value, found, rfl, rfl⟩
        · rintro ⟨held, found, rfl, rfl⟩
          exact ⟨found, rfl⟩
    have parts := (List.filter_append_perm (fun entry : κ × α => entry.1 = key) list).map
      fun entry => weight entry.2
    rw [← parts.sum_nat, List.map_append, List.sum_append, (here.map _).sum_nat]
    congr 1
    · cases find key <;> simp
    · congr 2
      exact List.filter_congr fun entry _ => by simp
  have same : (entries.filter fun entry => entry.1 ≠ key).Perm
      (after.filter fun entry => entry.1 ≠ key) := by
    refine (List.perm_ext_iff_of_nodup (tabulates.nodup.filter _)
      (tabulatesLater.nodup.filter _)).2 fun (other, value) => ?_
    simp only [List.mem_filter, tabulates.mem, tabulatesLater.mem, ne_eq, decide_not,
      Bool.not_eq_true', decide_eq_false_iff_not]
    exact and_congr_left fun different => by rw [elsewhere other different]
  rw [apart tabulates, apart tabulatesLater, (same.map _).sum_nat]
  omega

theorem foldl_add (list : List α) (weight : α → Nat) (start : Nat) :
    list.foldl (fun total entry => total + weight entry) start = start + (list.map weight).sum := by
  induction list generalizing start with
  | nil => rfl
  | cons first rest ih => rw [List.foldl_cons, ih, List.map_cons, List.sum_cons, Nat.add_assoc]

theorem sum_flatMap (list : List α) (parts : α → List β) (weight : β → Nat) :
    ((list.flatMap parts).map weight).sum =
      (list.map fun entry => ((parts entry).map weight).sum).sum := by
  induction list with
  | nil => rfl
  | cons first rest ih =>
    rw [List.flatMap_cons, List.map_append, List.sum_append, ih, List.map_cons, List.sum_cons]

/-- What an edge adds to the pending weight. -/
def Edge.weight (edge : Edge) : Nat :=
  if edge.satisfied then 0 else if edge.callback.isSome then 3 else 1

theorem Cell.pendingWeight_eq (cell : Cell) :
    cell.pendingWeight = (cell.waiting.toList.map fun entry => entry.2.weight).sum := by
  unfold pendingWeight
  rw [Std.ExtTreeMap.foldl_eq_foldl_toList]
  have step : (fun (total : Nat) (entry : Address × Edge) => if entry.2.satisfied then total
      else total + (if entry.2.callback.isSome then 3 else 1)) =
        fun total entry => total + entry.2.weight := by
    funext total entry
    unfold Edge.weight
    split <;> rfl
  exact (congrArg (fun step => cell.waiting.toList.foldl step 0) step).trans
    ((foldl_add _ _ 0).trans (Nat.zero_add _))

namespace Network

/-! ## Keys and edges -/

/-- All keys. -/
def cells (network : Network) : List (Address × Cell) :=
  network.trees.entries.flatMap fun entry =>
    entry.2.keys.toList.map fun item => (⟨entry.1, item.1⟩, item.2)

/-- All edges, by waiting key and source. -/
def edges (network : Network) : List ((Address × Address) × Edge) :=
  network.cells.flatMap fun entry =>
    entry.2.waiting.toList.map fun item => ((entry.1, item.1), item.2)

variable {network later : Network}

theorem tabulates_cells (network : Network) : Tabulates network.cells network.cell? :=
  (tabulates_entries network.trees).flatMap tabulates_keys
    (fun key => ⟨key.tree, key.path, rfl⟩) (fun equal => Address.mk.inj equal) fun _ _ => rfl

theorem tabulates_edges (network : Network) :
    Tabulates network.edges fun pair => network.edge? pair.1 pair.2 :=
  network.tabulates_cells.flatMap (fun cell => tabulates_map cell.waiting)
    (fun pair => ⟨pair.1, pair.2, rfl⟩) (fun equal => Prod.mk.inj equal) fun _ _ => rfl

theorem total_eq (network : Network) (weight : Cell → Nat) :
    network.total (fun tree => tree.keys.foldl (fun total _ cell => total + weight cell) 0) =
      (network.cells.map fun entry => weight entry.2).sum := by
  have trees (list : List (Handle × Tree)) : list.foldr (fun entry sum =>
      entry.2.keys.foldl (fun total _ cell => total + weight cell) 0 + sum) 0 =
        (list.map fun entry => (entry.2.keys.toList.map fun item => weight item.2).sum).sum := by
    induction list with
    | nil => rfl
    | cons first rest ih =>
      rw [List.foldr_cons, ih, List.map_cons, List.sum_cons, Std.ExtTreeMap.foldl_eq_foldl_toList,
        foldl_add, Nat.zero_add]
  unfold total cells
  rw [sum_flatMap]
  refine (trees network.trees.entries).trans ?_
  simp only [List.map_map, Function.comp_def]

theorem pendingWeight_eq (network : Network) :
    network.pendingWeight = (network.edges.map fun entry => entry.2.weight).sum := by
  unfold edges
  rw [sum_flatMap]
  refine (network.total_eq Cell.pendingWeight).trans ?_
  simp only [List.map_map, Function.comp_def, Cell.pendingWeight_eq]

theorem edgeCount_eq (network : Network) : network.edgeCount = network.edges.length := by
  unfold edges
  rw [List.length_flatMap]
  refine (network.total_eq fun cell => cell.waiting.size).trans ?_
  simp only [List.length_map, Std.ExtTreeMap.length_toList]

/-- The active keys. -/
def activeKeys (network : Network) : List Address :=
  (network.cells.filter fun entry => entry.2.active).map Prod.fst

theorem activeCount_eq (network : Network) : network.activeCount = network.activeKeys.length := by
  have step : (fun (total : Nat) (_ : Path) (cell : Cell) =>
      if cell.active then total + 1 else total) =
        fun total _ cell => total + if cell.active then 1 else 0 := by
    funext total _ cell
    split <;> rfl
  unfold activeCount Tree.activeCount activeKeys
  rw [step, network.total_eq fun cell => if cell.active then 1 else 0, List.length_map,
    ← List.countP_eq_length_filter]
  induction network.cells with
  | nil => rfl
  | cons first rest ih =>
    rw [List.map_cons, List.sum_cons, ih, List.countP_cons, Nat.add_comm]

theorem mem_activeKeys {key : Address} :
    key ∈ network.activeKeys ↔ network.isActive key = true := by
  simp only [activeKeys, List.mem_map, List.mem_filter, Prod.exists, network.tabulates_cells.mem,
    isActive_iff]
  constructor
  · rintro ⟨other, cell, ⟨found, active⟩, rfl⟩
    exact ⟨cell, found, active⟩
  · rintro ⟨cell, found, active⟩
    exact ⟨key, cell, ⟨found, active⟩, rfl⟩

theorem nodup_activeKeys (network : Network) : network.activeKeys.Nodup := by
  unfold activeKeys
  refine List.Pairwise.map Prod.fst (fun first second different => different)
    (List.Pairwise.imp_of_mem ?_ (network.tabulates_cells.nodup.filter _))
  intro first second listed listedToo different same
  have found := (network.tabulates_cells.mem first.1 first.2).1 (List.mem_of_mem_filter listed)
  have foundToo := (network.tabulates_cells.mem second.1 second.2).1
    (List.mem_of_mem_filter listedToo)
  rw [← same, found] at foundToo
  exact different (Prod.ext same (Option.some.inj foundToo))

/-! ## The pending weight -/

theorem pendingWeight_congr
    (same : ∀ waiter source, later.edge? waiter source = network.edge? waiter source) :
    later.pendingWeight = network.pendingWeight := by
  have table : Tabulates later.edges fun pair => network.edge? pair.1 pair.2 := by
    have listed := later.tabulates_edges
    simp only [same] at listed
    exact listed
  rw [pendingWeight_eq, pendingWeight_eq]
  exact ((table.perm network.tabulates_edges).map _).sum_nat

/-- The weight where one edge differs. -/
theorem pendingWeight_add {waiter source : Address}
    (elsewhere : ∀ key other, (key, other) ≠ (waiter, source) →
      later.edge? key other = network.edge? key other) :
    later.pendingWeight + ((network.edge? waiter source).map Edge.weight).getD 0 =
      network.pendingWeight + ((later.edge? waiter source).map Edge.weight).getD 0 := by
  rw [pendingWeight_eq, pendingWeight_eq]
  exact network.tabulates_edges.sum_add later.tabulates_edges (waiter, source)
    (fun pair different => elsewhere pair.1 pair.2 different) Edge.weight

end Network

end ConceptLaws.Propagation
