import ConceptLaws.Proofs.Propagation.Edit

/-! Activation as an edit.
The walk over a section activates all of it at once, which keeps activity closed downward. A new
edge is attached to its source before anything is told. -/

namespace ConceptLaws.Propagation.Network

/-! ## The agenda -/

theorem resolve_mem_pushCheck {agenda : Agenda} {key waiter source : Address} :
    Event.resolve waiter source ∈ (agenda.pushCheck key).events ↔
      Event.resolve waiter source ∈ agenda.events := by
  unfold Agenda.pushCheck
  split <;> simp

theorem resolve_mem_pushChecks {agenda : Agenda} {keys : List Address} {waiter source : Address} :
    Event.resolve waiter source ∈ (agenda.pushChecks keys).events ↔
      Event.resolve waiter source ∈ agenda.events := by
  unfold Agenda.pushChecks
  generalize keys.mergeSort _ = sorted
  induction sorted generalizing agenda with
  | nil => rfl
  | cons first rest ih => rw [List.foldl_cons, ih, resolve_mem_pushCheck]

theorem Founded.tame_pushChecks {network : Network} (founded : network.Founded)
    (keys : List Address) :
    network.Tame (network.updateAgenda fun agenda => agenda.pushChecks keys) :=
  founded.tame_of_trees rfl fun _ _ => resolve_mem_pushChecks.1

/-! ## Activating sections -/

/-- Activating one by one what is not active yet makes every key of the list active. -/
theorem foldl_activateKey (handle : Handle) (entries : List (Path × Cell)) (walk : ActivationWalk)
    (current : ∀ entry ∈ entries, entry.2.active = true →
      ∀ cell, walk.network.cell? ⟨handle, entry.1⟩ = some cell → cell.active = true) :
    (entries.foldl (activateKey handle) walk).network =
      (entries.map Prod.fst).foldl (fun network path =>
        network.updateCell ⟨handle, path⟩ fun cell => { cell with active := true })
        walk.network := by
  induction entries generalizing walk with
  | nil => rfl
  | cons first rest ih =>
    have step : (activateKey handle walk first).network =
        walk.network.updateCell ⟨handle, first.1⟩ fun cell => { cell with active := true } := by
      unfold activateKey
      by_cases active : first.2.active = true
      · simp only [active, ↓reduceIte]
        refine (updateCell_self fun cell found => ?_).symm
        have set := current first (List.mem_cons_self ..) active cell found
        cases cell
        simp_all
      · simp only [active, Bool.false_eq_true, ↓reduceIte]
    rw [List.foldl_cons, ih, step, List.map_cons, List.foldl_cons]
    intro entry member active cell found
    rw [step, cell?_updateCell] at found
    by_cases same : (⟨handle, entry.1⟩ : Address) = ⟨handle, first.1⟩
    · rw [if_pos same, Option.map_eq_some_iff] at found
      obtain ⟨before, -, rfl⟩ := found
      rfl
    · rw [if_neg same] at found
      exact current entry (List.mem_cons_of_mem first member) active cell found

theorem activateSubtree_network (walk : ActivationWalk) (key : Address) :
    (activateSubtree walk key).network =
      (walk.network.ensure key).updateTree key.tree fun tree => tree.raise key.path := by
  unfold activateSubtree
  cases live : (walk.network.ensure key).tree? key.tree with
  | none =>
    have gone : walk.network.tree? key.tree = none := by simpa using live
    have unchanged : walk.network.ensure key = walk.network :=
      updateTree_self fun tree found => by simp [gone] at found
    rw [unchanged, updateTree_self fun tree found => by simp [gone] at found]
    simp only [gone]
  | some tree =>
    simp only [live]
    rw [foldl_activateKey]
    · have sameTree : ((walk.network.ensure key).updateTree key.tree fun tree =>
          tree.raise key.path) = (walk.network.ensure key).updateTree key.tree fun other =>
            (tree.subtreePaths key.path).foldl (fun tree path =>
              tree.update path fun cell => { cell with active := true }) other :=
        updateTree_congr_of_live live (tree.raise_eq_foldl key.path)
      rw [sameTree, updateTree_foldl, Tree.subtreePaths]
    · intro entry member active cell found
      obtain ⟨other, liveOther, present⟩ := cell?_eq_some_iff.1 found
      obtain rfl : tree = other := Option.some.inj (live.symm.trans liveOther)
      rw [(Tree.mem_subtree.1 member).1] at present
      exact Option.some.inj present ▸ active

theorem tame_activateSubtree (walk : ActivationWalk) (founded : walk.network.Founded)
    (key : Address) : walk.network.Tame (activateSubtree walk key).network := by
  rw [activateSubtree_network]
  have ensured := founded.tame_ensure key
  exact ensured.trans (ensured.founded.tame_raise key)

theorem tame_walkActivation (turns : Nat) (walk : ActivationWalk)
    (founded : walk.network.Founded) :
    walk.network.Tame (walkActivation turns walk).network := by
  induction turns generalizing walk with
  | zero => exact founded.tame_refl
  | succ turns ih =>
    unfold walkActivation
    cases walk.stack.dropWhile walk.seen.contains with
    | nil => exact founded.tame_refl
    | cons key rest =>
      have first := tame_activateSubtree
        { walk with stack := rest, seen := walk.seen.insert key } founded key
      exact first.trans (ih _ first.founded)

theorem Founded.tame_activateFrom {network : Network} (founded : network.Founded)
    (key : Address) : network.Tame (network.activateFrom key) := by
  have walked := tame_walkActivation (network.edgeCount + 1) ⟨network, [key], ∅, []⟩ founded
  exact walked.trans (walked.founded.tame_pushChecks _)

/-! ## New edges -/

/-- Below an active parent a key of data is active already; keys of variables are activated. -/
theorem Sound.advances_prepareWaiter {network : Network} (sound : network.Sound)
    (waiter : Address) : network.Advances (network.prepareWaiter waiter) := by
  unfold prepareWaiter
  rw [ensureWith_eq]
  have ensured := sound.advances_tame (sound.tame_ensure waiter)
  refine ensured.trans ?_
  cases above : ((waiter.path.parent?.map fun parent =>
      network.isActive ⟨waiter.tree, parent⟩).getD false) with
  | false =>
    exact ensured.sound.advances_relabel waiter fun cell => ⟨Bool.or_false _, rfl, rfl, rfl⟩
  | true =>
    simp only [Bool.or_true]
    refine ensured.sound.advances_activate waiter fun tree live plain cell found => ?_
    cases upper : waiter.path.parent? with
    | none => simp [upper] at above
    | some parent =>
      simp only [upper, Option.map_some, Option.getD_some, isActive] at above
      cases foundParent : network.cell? ⟨waiter.tree, parent⟩ with
      | none => simp [foundParent] at above
      | some parentCell =>
        have after := cell?_ensure_of_some sound.rooted waiter foundParent
        obtain ⟨other, liveOther, present⟩ := cell?_eq_some_iff.1 after
        obtain rfl : tree = other := Option.some.inj (live.symm.trans liveOther)
        refine (ensured.sound.trees _ tree live).downward plain parent parentCell waiter.path cell
          present ?_ (Path.isWithin_parent upper) found
        simpa [foundParent] using above

theorem Attached.of_propagated {network : Network} {waiter source : Address} {done : Bool}
    (attached : network.Attached waiter source done)
    (propagated : (network.tree? source.tree).isSome → network.isPropagated source = true) :
    network.Attached waiter source true := by
  refine ⟨attached.1, fun live => ?_⟩
  obtain ⟨cell, found, member, -⟩ := attached.2 live
  exact ⟨cell, found, member, fun _ => by simpa [isPropagated, found] using propagated live⟩

theorem isPropagated_iff {network : Network} {key : Address} :
    network.isPropagated key = true ↔
      ∃ cell, network.cell? key = some cell ∧ cell.propagated = true := by
  unfold isPropagated
  cases network.cell? key <;> simp

/-- Makes an edge at both ends. -/
def link (network : Network) (waiter source : Address) (callback : Option Callback) : Network :=
  (network.addEdge waiter source callback).ensureWith source fun cell =>
    { cell with triggers := cell.triggers.insert waiter }

theorem Founded.addEdge {network : Network} (founded : network.Founded) (waiter source : Address)
    (callback : Option Callback) : (network.addEdge waiter source callback).Founded := by
  refine founded.updateCell (fun _ => rfl) fun cell found done => ?_
  obtain ⟨tree, live, present⟩ := cell?_eq_some_iff.1 found
  exact (founded.trees _ tree live).calm waiter.path cell present done

/-- A new edge: the source is there and has the waiter among its triggers. -/
theorem Sound.advances_link {network : Network} (sound : network.Sound) {waiter source : Address}
    (callback : Option Callback) (live : (network.tree? source.tree).isSome)
    (new : network.edge? waiter source = none) :
    network.Advances (network.link waiter source callback) ∧
      (network.link waiter source callback).Attached waiter source false := by
  have newEdge : ∀ cell, network.cell? waiter = some cell → cell.waiting[source]? = none := by
    intro cell found
    simpa [edge?, found] using new
  have addedFounded := sound.addEdge waiter source callback
  have added : network.Evolves (network.addEdge waiter source callback) := by
    refine evolves_updateCell fun cell found => ⟨id, id, fun other edge waits => ?_, fun _ => id⟩
    refine ⟨edge, ?_, id⟩
    simp only [Std.ExtTreeMap.getElem?_insert, Std.compare_eq_iff_eq]
    by_cases same : source = other
    · rw [← same, newEdge cell found] at waits
      simp at waits
    · simpa [same] using waits
  have ensured := addedFounded.tame_ensure source
  have liveAdded : ((network.addEdge waiter source callback).tree? source.tree).isSome := by
    unfold addEdge
    rw [tree?_updateCell]
    by_cases same : source.tree = waiter.tree
    · rw [if_pos same, ← same, Option.isSome_map]
      exact live
    · rwa [if_neg same]
  unfold link
  rw [ensureWith_eq]
  have triggered : ((network.addEdge waiter source callback).ensure source).Evolves
      (((network.addEdge waiter source callback).ensure source).updateCell source fun cell =>
        { cell with triggers := cell.triggers.insert waiter }) :=
    evolves_updateCell fun cell _ => ⟨id, id, fun _ edge waits => ⟨edge, waits, id⟩,
      fun other member => Std.ExtTreeSet.mem_insert.2 (Or.inr member)⟩
  have evolves := (added.trans ensured.evolves).trans triggered
  have attached : Attached (((network.addEdge waiter source callback).ensure source).updateCell
      source fun cell => { cell with triggers := cell.triggers.insert waiter })
      waiter source false := by
    obtain ⟨tree, found⟩ := Option.isSome_iff_exists.1 live
    refine ⟨evolves.issued _ (Arena.issued_of_get? found), fun _ => ?_⟩
    obtain ⟨cell, present⟩ := cell?_ensure_self addedFounded.rooted liveAdded
    refine ⟨{ cell with triggers := cell.triggers.insert waiter }, by simp [present], ?_, ?_⟩
    · exact Std.ExtTreeSet.mem_insert_self
    · simp
  refine ⟨⟨sound.evolve evolves ?_ (fun other target done held => ?_) fun _ _ => Or.inl, evolves⟩,
    attached⟩
  · refine ensured.founded.updateCell (fun _ => rfl) fun cell found done => ?_
    obtain ⟨tree, liveSource, present⟩ := cell?_eq_some_iff.1 found
    exact (ensured.founded.trees _ tree liveSource).calm source.path cell present done
  · have before : (network.addEdge waiter source callback).HasEdge other target done := by
      refine ensured.hasEdge ?_
      rcases hasEdge_updateCell held with old | ⟨rfl, cell, edge, found, waits, state⟩
      · exact old
      · exact ⟨cell, edge, found, waits, state⟩
    rcases hasEdge_updateCell before with old | ⟨rfl, cell, edge, found, waits, rfl⟩
    · exact Or.inl old
    · simp only [Std.ExtTreeMap.getElem?_insert, Std.compare_eq_iff_eq] at waits
      by_cases same : source = target
      · rw [if_pos same, Option.some.injEq] at waits
        subst waits
        exact Or.inr (same ▸ attached)
      · rw [if_neg same] at waits
        exact Or.inl ⟨cell, edge, found, waits, rfl⟩

/-- What waiting can come to. -/
inductive Waiting (network : Network) (waiter source : Address) (callback : Option Callback) :
    Network → Prop
  | stale (dead : network.tree? waiter.tree = none ∨ network.tree? source.tree = none) :
      Waiting network waiter source callback network
  | present {edge : Edge} (held : (network.prepareWaiter waiter).edge? waiter source = some edge) :
      Waiting network waiter source callback (network.prepareWaiter waiter)
  | linked {roused later : Network}
      (live : ((network.prepareWaiter waiter).tree? source.tree).isSome)
      (new : (network.prepareWaiter waiter).edge? waiter source = none)
      (rouse : ((network.prepareWaiter waiter).link waiter source callback).Tame roused)
      (trees : later.trees = roused.trees)
      (events : ∀ other target, Event.resolve other target ∈ later.agenda.events →
        Event.resolve other target ∈ roused.agenda.events ∨ other = waiter ∧ target = source ∧
          ((network.prepareWaiter waiter).link waiter source callback).isPropagated source = true) :
      Waiting network waiter source callback later

theorem Sound.waiting {network : Network} (sound : network.Sound) (waiter source : Address)
    (callback : Option Callback) :
    network.Waiting waiter source callback (network.waitOn waiter source callback).2 := by
  unfold waitOn
  split
  · rename_i dead
    exact .stale (by simpa using dead)
  · rename_i live
    have prepared := sound.advances_prepareWaiter waiter
    dsimp only
    split
    · rename_i held
      cases found : (network.prepareWaiter waiter).cell? waiter with
      | none => simp [found] at held
      | some cell =>
        simp only [found, Option.map_some, Option.getD_some,
          Std.ExtTreeMap.contains_eq_isSome_getElem?, Option.isSome_iff_exists] at held
        obtain ⟨edge, waits⟩ := held
        exact .present (edge?_eq_some_iff.2 ⟨cell, found, waits⟩)
    · rename_i fresh
      have liveSource : ((network.prepareWaiter waiter).tree? source.tree).isSome := by
        cases foundSource : network.tree? source.tree with
        | none => simp [foundSource] at live
        | some tree =>
          obtain ⟨after, foundAfter, -⟩ := prepared.evolves.live _ tree foundSource
          simp [foundAfter]
      have new : (network.prepareWaiter waiter).edge? waiter source = none := by
        unfold edge?
        cases found : (network.prepareWaiter waiter).cell? waiter with
        | none => rfl
        | some cell =>
          simp only [found, Option.map_some, Option.getD_some, Bool.not_eq_true] at fresh
          exact Std.ExtTreeMap.getElem?_eq_none_of_contains_eq_false fresh
      obtain ⟨linked, -⟩ := prepared.sound.advances_link callback liveSource new
      have rouse : ((network.prepareWaiter waiter).link waiter source callback).Tame
          (if ((network.prepareWaiter waiter).addEdge waiter source callback).isActive waiter then
            ((network.prepareWaiter waiter).link waiter source callback).activateFrom source
          else (network.prepareWaiter waiter).link waiter source callback) := by
        split
        · exact linked.sound.tame_activateFrom source
        · exact linked.sound.tame_refl
      split
      · rename_i propagated
        refine .linked liveSource new rouse rfl fun other target member => ?_
        rcases List.mem_append.1 member with old | told
        · exact Or.inl old
        · simp only [List.mem_singleton, Event.resolve.injEq] at told
          exact Or.inr ⟨told.1, told.2, propagated⟩
      · exact .linked liveSource new rouse rfl fun _ _ => Or.inl

theorem Sound.advances_waitOn {network : Network} (sound : network.Sound)
    (waiter source : Address) (callback : Option Callback) :
    network.Advances (network.waitOn waiter source callback).2 := by
  have prepared := sound.advances_prepareWaiter waiter
  have waiting := sound.waiting waiter source callback
  generalize (network.waitOn waiter source callback).2 = final at waiting ⊢
  cases waiting with
  | stale => exact sound.advances_refl
  | present => exact prepared
  | linked live new rouse trees events =>
    obtain ⟨linked, attached⟩ := prepared.sound.advances_link callback live new
    have roused := linked.sound.advances_tame rouse
    refine ((prepared.trans linked).trans roused).trans
      (roused.sound.advances_agenda trees fun other target member => ?_)
    refine (events other target member).imp_right ?_
    rintro ⟨rfl, rfl, propagated⟩
    exact (attached.of_propagated fun _ => propagated).evolve roused.evolves

end ConceptLaws.Propagation.Network
