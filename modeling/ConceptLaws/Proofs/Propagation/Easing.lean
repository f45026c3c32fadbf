import ConceptLaws.Proofs.Propagation.Stride
import ConceptLaws.Proofs.Propagation.Walk

/-! Open edges run out.
A cascade satisfies edges, and the callback of an edge adds at most one edge, which has no callback
itself. So the pending weight never rises, and while it stays no edge is satisfied. -/

namespace ConceptLaws.Propagation.Network

variable {network later : Network}

/-- The pending weight falls, or it stays and with it all edges that are open. -/
structure Eases (network later : Network) : Prop where
  weight : later.pendingWeight ≤ network.pendingWeight
  still : later.pendingWeight = network.pendingWeight → ∀ waiter source,
    network.HasEdge waiter source false → later.HasEdge waiter source false

theorem eases_refl (network : Network) : network.Eases network :=
  ⟨Nat.le_refl _, fun _ _ _ => id⟩

theorem Eases.trans {first second third : Network} (earlier : first.Eases second)
    (rest : second.Eases third) : first.Eases third := by
  refine ⟨rest.weight.trans earlier.weight, fun same waiter source held => ?_⟩
  have falls := earlier.weight
  have fallsToo := rest.weight
  exact rest.still (by omega) waiter source (earlier.still (by omega) waiter source held)

theorem eases_of_lt (falls : later.pendingWeight < network.pendingWeight) :
    network.Eases later :=
  ⟨Nat.le_of_lt falls, fun same => absurd same (Nat.ne_of_lt falls)⟩

theorem eases_of_edges
    (same : ∀ waiter source, later.edge? waiter source = network.edge? waiter source) :
    network.Eases later := by
  refine ⟨Nat.le_of_eq (pendingWeight_congr same), fun _ waiter source held => ?_⟩
  rw [hasEdge_iff_edge?] at held ⊢
  rwa [same]

/-! ## New edges -/

theorem edge?_insert {waiter : Address} (waits : (network.cell? waiter).isSome) (source : Address)
    (edge : Edge) (key other : Address) :
    (network.updateCell waiter fun cell =>
      { cell with waiting := cell.waiting.insert source edge }).edge? key other =
        if key = waiter ∧ other = source then some edge else network.edge? key other := by
  obtain ⟨cell, found⟩ := Option.isSome_iff_exists.1 waits
  unfold edge?
  rw [cell?_updateCell]
  by_cases same : key = waiter
  · subst same
    simp only [↓reduceIte, found, Option.map_some, Option.bind_eq_bind, Option.bind_some,
      Std.ExtTreeMap.getElem?_insert, Std.compare_eq_iff_eq, true_and]
    by_cases here : source = other
    · simp [here]
    · simp [here, Ne.symm here]
  · simp only [same, ↓reduceIte, false_and]

theorem edge?_linkRoused {waiter source : Address} (callback : Option Callback)
    (waits : (network.cell? waiter).isSome) (key other : Address) :
    (network.linkRoused waiter source callback).edge? key other =
      if key = waiter ∧ other = source then some ⟨false, callback⟩
      else network.edge? key other := by
  have linked : (network.link waiter source callback).edge? key other =
      if key = waiter ∧ other = source then some ⟨false, callback⟩
      else network.edge? key other := by
    refine (edge?_ensureWith _ _ _ ?_ _ _).trans (edge?_insert waits source _ key other)
    exact fun _ => rfl
  unfold linkRoused
  split
  · exact (edge?_activateFrom _ _ _ _).trans linked
  · exact linked

theorem edge?_of_trees (trees : later.trees = network.trees) (waiter source : Address) :
    later.edge? waiter source = network.edge? waiter source := by
  unfold edge? cell? tree?
  rw [trees]

/-- Waiting without a callback adds an edge of the least weight, if any. -/
theorem pendingWeight_waitOn (network : Network) (waiter source : Address) :
    (network.waitOn waiter source none).2.pendingWeight ≤ network.pendingWeight + 1 := by
  have waited := network.waited_waitOn waiter source none
  have prepared := pendingWeight_congr (network.edge?_prepareWaiter waiter)
  generalize (network.waitOn waiter source none).2 = later at waited ⊢
  cases waited with
  | stale => exact Nat.le_succ _
  | held => exact prepared ▸ Nat.le_succ _
  | linked waits tells new trees =>
    have edges (key other : Address) :=
      (edge?_of_trees trees key other).trans (edge?_linkRoused none waits key other)
    have added : later.pendingWeight +
        (((network.prepareWaiter waiter).edge? waiter source).map Edge.weight).getD 0 =
          (network.prepareWaiter waiter).pendingWeight +
            ((later.edge? waiter source).map Edge.weight).getD 0 := by
      refine pendingWeight_add fun key other different => ?_
      rw [edges, if_neg fun same => different (Prod.ext same.1 same.2)]
    rw [new, edges, if_pos ⟨rfl, rfl⟩, prepared] at added
    exact Nat.le_of_eq added

theorem edge?_recast (network : Network) (handle : Handle) (role : Role)
    (waiter source : Address) :
    (network.updateTree handle fun tree => { tree with role }).edge? waiter source =
      network.edge? waiter source :=
  edge?_congr (network.cell?_recast handle role waiter)

theorem pendingWeight_bindCommand (network : Network) (handle : Handle) (source : Address)
    (callback : Callback) :
    (network.bindCommand handle source callback).pendingWeight ≤ network.pendingWeight + 1 := by
  have told (command : Command.Compiled) (waiter other : Address) :
      ((network.setCommand handle command).waitOn waiter other none).2.pendingWeight ≤
        network.pendingWeight + 1 := by
    rw [← pendingWeight_congr (network.edge?_recast handle (.command command))]
    exact pendingWeight_waitOn _ waiter other
  unfold bindCommand
  split
  · exact Nat.le_succ _
  split
  · cases callback with
    | bindTarget => exact told _ _ _
    | bindBlock place =>
      dsimp only
      split
      · exact Nat.le_succ _
      · exact told _ _ _
  · exact Nat.le_succ _

/-! ## Satisfying edges -/

/-- An edge that is satisfied counts no longer. -/
theorem pendingWeight_satisfied {waiter source : Address} {edge : Edge}
    (held : network.edge? waiter source = some edge) :
    (network.updateCell waiter fun cell =>
      { cell with waiting := cell.waiting.insert source ⟨true, none⟩ }).pendingWeight +
        edge.weight = network.pendingWeight := by
  obtain ⟨cell, found, -⟩ := edge?_eq_some_iff.1 held
  have edges := edge?_insert (Option.isSome_iff_exists.2 ⟨cell, found⟩) source ⟨true, none⟩
  have moved := pendingWeight_add fun key other (different : (key, other) ≠ (waiter, source)) =>
    (edges key other).trans (if_neg fun same => different (Prod.ext same.1 same.2))
  rw [held, edges, if_pos ⟨rfl, rfl⟩] at moved
  exact moved

/-- An open edge is satisfied, and that lowers the weight, whatever its callback adds. -/
theorem satisfy_of_open {waiter source : Address} (held : network.HasEdge waiter source false) :
    (network.satisfy waiter source).1 = true ∧
      (network.satisfy waiter source).2.pendingWeight < network.pendingWeight := by
  obtain ⟨⟨satisfied, callback⟩, present, rfl⟩ := hasEdge_iff_edge?.1 held
  have lighter := pendingWeight_satisfied present
  rw [satisfy_eq_edge?, present]
  cases callback with
  | none =>
    refine ⟨rfl, ?_⟩
    change (network.updateCell _ _).pendingWeight < _
    change _ + 1 = _ at lighter
    omega
  | some callback =>
    refine ⟨rfl, ?_⟩
    have bound := pendingWeight_bindCommand ((network.updateCell waiter fun cell =>
      { cell with waiting := cell.waiting.insert source ⟨true, none⟩ }).updateCounts fun counts =>
        { counts with callbacks := counts.callbacks + 1 }) waiter.tree source callback
    change _ + 3 = _ at lighter
    change (bindCommand _ _ _ _).pendingWeight < _
    change _ ≤ (network.updateCell _ _).pendingWeight + 1 at bound
    omega

/-- Where no edge is open nothing is done. -/
theorem satisfy_of_not_open {waiter source : Address}
    (closed : ¬network.HasEdge waiter source false) :
    network.satisfy waiter source = (false, network) := by
  rw [satisfy_eq_edge?]
  cases present : network.edge? waiter source with
  | none => rfl
  | some edge =>
    have satisfied : edge.satisfied = true := by
      rw [← Bool.not_eq_false]
      exact fun unsatisfied => closed (hasEdge_iff_edge?.2 ⟨edge, present, unsatisfied⟩)
    simp only [satisfied, ↓reduceIte]

/-! ## Cascades -/

theorem Motion.eases (motion : network.Motion later) : network.Eases later := by
  cases motion with
  | bookkeeping trees => exact eases_of_edges (edge?_of_trees trees)
  | ensure key => exact eases_of_edges (network.edge?_ensure key)
  | state key change same =>
    exact eases_of_edges (network.edge?_updateCell key change fun cell => (same cell).waiting)
  | raised => exact eases_of_edges (network.edge?_updateCell _ _ fun _ => rfl)
  | role handle => exact eases_of_edges (network.edge?_recast handle _)
  | erased handle path unlinked =>
    refine eases_of_edges fun waiter source => ?_
    rcases cell?_eraseLeaf handle network path waiter with same | ⟨rfl, gone⟩
    · exact edge?_congr same
    · unfold edge?
      rw [gone]
      cases found : network.cell? ⟨handle, path⟩ with
      | none => rfl
      | some cell => exact ((Cell.isUnlinked_iff.1 (unlinked cell found)).1 source).symm
  | satisfied waiter source =>
    by_cases held : network.HasEdge waiter source false
    · exact eases_of_lt (satisfy_of_open held).2
    · rw [satisfy_of_not_open held]
      exact network.eases_refl

theorem Motions.eases (motions : network.Motions later) : network.Eases later := by
  induction motions with
  | refl => exact eases_refl _
  | tail _ motion ih => exact ih.trans motion.eases

/-- A pass over edges that satisfies none leaves all as it is, and the sources it has not found
propagated are left; otherwise the weight falls. -/
theorem satisfyDone_cases (handle : Handle) (edges : List (Path × Address)) (network : Network) :
    (network.satisfyDone handle edges).1 = true ∧
        (network.satisfyDone handle edges).2.2.pendingWeight < network.pendingWeight ∨
      (network.satisfyDone handle edges).1 = false ∧
        (network.satisfyDone handle edges).2.2 = network ∧
        ((∀ edge ∈ edges, network.HasEdge ⟨handle, edge.1⟩ edge.2 false) →
          (network.satisfyDone handle edges).2.1 = edges) := by
  induction edges generalizing network with
  | nil => exact Or.inr ⟨rfl, rfl, fun _ => rfl⟩
  | cons first rest ih =>
    obtain ⟨path, source⟩ := first
    unfold satisfyDone
    split
    · by_cases held : network.HasEdge ⟨handle, path⟩ source false
      · obtain ⟨newly, falls⟩ := satisfy_of_open held
        have onward := (Motions.eases ((network.satisfy ⟨handle, path⟩ source).2.motions_satisfyDone
          handle rest)).weight
        refine Or.inl ⟨by simp [newly], Nat.lt_of_le_of_lt onward falls⟩
      · rw [satisfy_of_not_open held]
        refine (ih network).imp (fun progress => by simpa using progress) fun still => ?_
        refine ⟨by simpa using still.1, still.2.1, fun all => absurd (all _ List.mem_cons_self) held⟩
    · refine (ih network).imp id fun still => ?_
      refine ⟨still.1, still.2.1, fun all => ?_⟩
      exact congrArg _ (still.2.2 fun edge member => all edge (List.mem_cons_of_mem _ member))

/-- Probing open edges to the end lowers the weight. -/
theorem pendingWeight_probeAll {probe : Probe} (asks : Asks probe) {handle : Handle}
    {first : Path × Address} {rest : List (Path × Address)}
    (held : network.HasEdge ⟨handle, first.1⟩ first.2 false)
    (succeeded : (probeAll probe network handle (first :: rest)).1 = true) :
    (probeAll probe network handle (first :: rest)).2.pendingWeight < network.pendingWeight := by
  have asked := Motions.eases (asks network first.2)
  unfold probeAll at succeeded ⊢
  generalize probe network first.2 = outcome at asked succeeded ⊢
  obtain ⟨answer, middle⟩ := outcome
  cases answer with
  | false => simp at succeeded
  | true =>
    have onward := (Motions.eases (motions_probeAll asks handle rest
      (middle.satisfy ⟨handle, first.1⟩ first.2).2)).weight
    refine Nat.lt_of_le_of_lt onward ?_
    have satisfied := (middle.motions_satisfy ⟨handle, first.1⟩ first.2).eases.weight
    rcases Nat.lt_or_eq_of_le asked.weight with falls | same
    · exact Nat.lt_of_le_of_lt satisfied falls
    · have open_ := asked.still same _ _ held
      exact Nat.lt_of_lt_of_le (satisfy_of_open open_).2 asked.weight

end ConceptLaws.Propagation.Network
