import ConceptLaws.Proofs.Propagation.Weights

/-! Walks of activation.
A walk takes keys off its stack until none is left that it has not been at. It changes no edge, and
every key it goes to, the first apart, is the source of one; so it ends, and it ends before the
turns that are counted for it run out. -/

namespace ConceptLaws.Propagation.Network

/-- A walk that comes to its end, however many turns that takes. -/
inductive Walks : ActivationWalk → ActivationWalk → Prop
  | done {walk : ActivationWalk} (nothing : walk.stack.dropWhile walk.seen.contains = []) :
      Walks walk walk
  | turn {walk last : ActivationWalk} {key : Address} {rest : List Address}
      (next : walk.stack.dropWhile walk.seen.contains = key :: rest)
      (onward : Walks (activateSubtree { walk with
        stack := rest, seen := walk.seen.insert key } key) last) : Walks walk last

/-! ## One turn -/

theorem cell?_activateSubtree (walk : ActivationWalk) (key query : Address) :
    (activateSubtree walk key).network.cell? query =
      ((walk.network.ensure key).cell? query).map fun cell =>
        if query.tree = key.tree ∧ query.path.isWithin key.path = true then
          { cell with active := true }
        else cell := by
  rw [activateSubtree_network]
  unfold cell?
  rw [tree?_updateTree]
  by_cases same : query.tree = key.tree
  · rw [if_pos same, same]
    cases (walk.network.ensure key).tree? key.tree with
    | none => rfl
    | some tree =>
      simp only [Option.map_some, Option.bind_eq_bind, Option.bind_some, Tree.cell?_raise,
        true_and]
  · rw [if_neg same]
    simp only [same, false_and, ↓reduceIte, Option.map_id']

theorem edge?_activateSubtree (walk : ActivationWalk) (key waiter source : Address) :
    (activateSubtree walk key).network.edge? waiter source =
      walk.network.edge? waiter source := by
  rw [← edge?_ensure walk.network key]
  unfold edge?
  rw [cell?_activateSubtree]
  cases (walk.network.ensure key).cell? waiter with
  | none => rfl
  | some cell =>
    simp only [Option.map_some, Option.bind_eq_bind, Option.bind_some]
    split <;> rfl

theorem seen_foldl_activateKey (handle : Handle) (entries : List (Path × Cell))
    (walk : ActivationWalk) : (entries.foldl (activateKey handle) walk).seen = walk.seen := by
  induction entries generalizing walk with
  | nil => rfl
  | cons first rest ih => exact ih _

theorem seen_activateSubtree (walk : ActivationWalk) (key : Address) :
    (activateSubtree walk key).seen = walk.seen := by
  unfold activateSubtree
  dsimp only
  split
  · rfl
  · exact seen_foldl_activateKey key.tree _ _

theorem mem_stack_foldl_activateKey {handle : Handle} {entries : List (Path × Cell)}
    {walk : ActivationWalk} {source : Address} :
    source ∈ (entries.foldl (activateKey handle) walk).stack ↔
      (∃ entry ∈ entries, source ∈ entry.2.waiting) ∨ source ∈ walk.stack := by
  induction entries generalizing walk with
  | nil => simp
  | cons first rest ih =>
    rw [List.foldl_cons, ih]
    simp only [activateKey, List.mem_append, List.mem_reverse, Std.ExtTreeMap.mem_keys,
      List.mem_cons, exists_eq_or_imp]
    rw [or_assoc, or_left_comm]

/-- What a turn puts upon the stack are the sources of the keys at and below the one it is at. -/
theorem mem_stack_activateSubtree {walk : ActivationWalk} {key source : Address} :
    source ∈ (activateSubtree walk key).stack ↔ source ∈ walk.stack ∨
      ∃ waiter, waiter.tree = key.tree ∧ waiter.path.isWithin key.path = true ∧
        (walk.network.edge? waiter source).isSome = true := by
  have ensured (waiter : Address) : walk.network.edge? waiter source =
      (walk.network.ensure key).edge? waiter source :=
    (walk.network.edge?_ensure key waiter source).symm
  unfold activateSubtree
  dsimp only
  split
  · rename_i dead
    refine ⟨Or.inl, fun held => held.resolve_right ?_⟩
    rintro ⟨waiter, same, -, waits⟩
    rw [ensured] at waits
    simp [edge?, cell?, same, dead] at waits
  · rename_i tree live
    rw [mem_stack_foldl_activateKey, or_comm]
    refine or_congr_right ⟨?_, ?_⟩
    · rintro ⟨⟨path, cell⟩, listed, waits⟩
      obtain ⟨present, within⟩ := Tree.mem_subtree.1 listed
      refine ⟨⟨key.tree, path⟩, rfl, within, ?_⟩
      rw [ensured]
      simpa [edge?, cell?, live, present] using waits
    · rintro ⟨⟨handle, path⟩, rfl, within, waits⟩
      rw [ensured] at waits
      obtain ⟨edge, held⟩ := Option.isSome_iff_exists.1 waits
      obtain ⟨cell, found, there⟩ := edge?_eq_some_iff.1 held
      obtain ⟨other, liveOther, present⟩ := cell?_eq_some_iff.1 found
      obtain rfl : tree = other := Option.some.inj (live.symm.trans liveOther)
      exact ⟨(path, cell), Tree.mem_subtree.2 ⟨present, within⟩,
        Std.ExtTreeMap.mem_iff_isSome_getElem?.2 (there ▸ rfl)⟩

/-! ## The end of a walk -/

/-- Where a walk from a key may go: to the key, and to the sources of edges. -/
structure Bounded (network : Network) (start : Address) (walk : ActivationWalk) : Prop where
  edges : ∀ waiter source, walk.network.edge? waiter source = network.edge? waiter source
  stack : ∀ key ∈ walk.stack, key = start ∨ ∃ waiter, (network.edge? waiter key).isSome
  seen : ∀ key ∈ walk.seen, key = start ∨ ∃ waiter, (network.edge? waiter key).isSome

variable {network : Network} {start : Address} {walk : ActivationWalk}

/-- The key that is next was not walked before. -/
theorem size_insert_next {key : Address} {rest : List Address}
    (next : walk.stack.dropWhile walk.seen.contains = key :: rest) :
    (walk.seen.insert key).size = walk.seen.size + 1 := by
  have new := List.head_dropWhile_not walk.seen.contains (l := walk.stack) (by simp [next])
  simp only [next, List.head_cons] at new
  rw [Std.ExtTreeSet.size_insert, if_neg]
  exact fun member => by simp [Std.ExtTreeSet.contains_iff_mem.2 member] at new

theorem Bounded.turn (bounded : network.Bounded start walk) {key : Address} {rest : List Address}
    (next : walk.stack.dropWhile walk.seen.contains = key :: rest) :
    network.Bounded start
      (activateSubtree { walk with stack := rest, seen := walk.seen.insert key } key) := by
  have suffix : key :: rest ⊆ walk.stack := next ▸ (List.dropWhile_sublist _).subset
  refine ⟨fun waiter source => ?_, fun source listed => ?_, fun source member => ?_⟩
  · rw [edge?_activateSubtree]
    exact bounded.edges waiter source
  · rcases mem_stack_activateSubtree.1 listed with old | ⟨waiter, -, -, waits⟩
    · exact bounded.stack source (suffix (List.mem_cons_of_mem key old))
    · exact Or.inr ⟨waiter, bounded.edges waiter source ▸ waits⟩
  · rw [seen_activateSubtree] at member
    rcases Std.ExtTreeSet.mem_insert.1 member with same | old
    · obtain rfl := Std.LawfulEqCmp.eq_of_compare same
      exact bounded.stack key (suffix List.mem_cons_self)
    · exact bounded.seen source old

/-- A walk has been at no more keys than there are edges, and one. -/
theorem Bounded.size_le (bounded : network.Bounded start walk) :
    walk.seen.size ≤ network.edgeCount + 1 := by
  have distinct : walk.seen.toList.Nodup := by
    refine Std.ExtTreeSet.distinct_toList.imp fun different same => different ?_
    rw [same]
    exact Std.ReflCmp.compare_self
  have within : walk.seen.toList ⊆ start :: network.edges.map fun entry => entry.1.2 := by
    intro key member
    rcases bounded.seen key (Std.ExtTreeSet.mem_toList.1 member) with rfl | ⟨waiter, waits⟩
    · exact List.mem_cons_self
    · obtain ⟨edge, held⟩ := Option.isSome_iff_exists.1 waits
      exact List.mem_cons_of_mem _ (List.mem_map.2
        ⟨((waiter, key), edge), (network.tabulates_edges.mem _ _).2 held, rfl⟩)
  have shorter := (List.subperm_of_subset distinct within).length_le
  rwa [Std.ExtTreeSet.length_toList, List.length_cons, List.length_map, ← edgeCount_eq] at shorter

theorem Bounded.walks (bounded : network.Bounded start walk) (turns : Nat)
    (enough : network.edgeCount + 1 ≤ turns + walk.seen.size) :
    Walks walk (walkActivation turns walk) := by
  induction turns generalizing walk with
  | zero =>
    unfold walkActivation
    refine .done ?_
    cases next : walk.stack.dropWhile walk.seen.contains with
    | nil => rfl
    | cons key rest =>
      have further := (bounded.turn next).size_le
      rw [seen_activateSubtree, size_insert_next next] at further
      omega
  | succ turns ih =>
    unfold walkActivation
    split
    · rename_i nothing
      exact .done nothing
    · rename_i key rest next
      refine .turn next (ih (bounded.turn next) ?_)
      rw [seen_activateSubtree, size_insert_next next]
      omega

/-- A walk changes no edge. -/
theorem Walks.edge?_eq {walk last : ActivationWalk} (walks : Walks walk last)
    (waiter source : Address) :
    last.network.edge? waiter source = walk.network.edge? waiter source := by
  induction walks with
  | done => rfl
  | turn next onward ih => rw [ih, edge?_activateSubtree]

/-- Activating a key walks to the end. -/
theorem walks_activateFrom (network : Network) (key : Address) :
    Walks ⟨network, [key], ∅, []⟩
      (walkActivation (network.edgeCount + 1) ⟨network, [key], ∅, []⟩) := by
  have bounded : network.Bounded key ⟨network, [key], ∅, []⟩ :=
    ⟨fun _ _ => rfl, fun other member => Or.inl (List.mem_singleton.1 member),
      fun other member => by simp at member⟩
  exact bounded.walks _ (Nat.le_add_right _ _)

theorem edge?_activateFrom (network : Network) (key waiter source : Address) :
    (network.activateFrom key).edge? waiter source = network.edge? waiter source :=
  (network.walks_activateFrom key).edge?_eq waiter source

end ConceptLaws.Propagation.Network
