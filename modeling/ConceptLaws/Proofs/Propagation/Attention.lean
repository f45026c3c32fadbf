import ConceptLaws.Proofs.Propagation.Agenda
import ConceptLaws.Proofs.Propagation.Progress

/-! Waiters that are told.
Where there are no commands, moves only add to the agenda: a key that is completed puts every key
that waits on it there. A check that leaves its key as it is has satisfied what could be satisfied.
-/

namespace ConceptLaws.Propagation

namespace Network

/-! ## Moves -/

/-- There are no commands, and every source knows its waiters. -/
structure Passive (network : Network) : Prop where
  vacant : ∀ handle, network.command? handle = none
  linked : ∀ waiter source cell, network.Waits waiter source → network.cell? source = some cell →
    waiter ∈ cell.triggers

theorem Sound.passive {network : Network} (sound : network.Sound)
    (vacant : ∀ handle, network.command? handle = none) : network.Passive := by
  refine ⟨vacant, fun waiter source cell waits found => ?_⟩
  obtain ⟨done, held⟩ := waits
  obtain ⟨tree, live, -⟩ := cell?_eq_some_iff.1 found
  obtain ⟨other, foundOther, member, -⟩ := (sound.linked waiter source done held).2 (by simp [live])
  obtain rfl : cell = other := Option.some.inj (found.symm.trans foundOther)
  exact member

theorem Passive.progress {network later : Network} (passive : network.Passive)
    (progress : network.Progress later) : later.Passive := by
  refine ⟨fun handle => ?_, fun waiter source after waits found => ?_⟩
  · rw [progress.roles.command?, passive.vacant]
  · obtain ⟨cell, foundCell, further⟩ := progress.origin source after found
    rw [further.triggers]
    exact passive.linked waiter source cell (progress.waits.1 waits) foundCell

/-- The network progressed, and whoever waits on a key that was completed meanwhile is told. -/
structure Heeds (network later : Network) : Prop where
  progress : network.Progress later
  agenda : network.agenda.Extends later.agenda
  told : ∀ waiter source, network.Waits waiter source → network.isPropagated source = false →
    later.isPropagated source = true → Event.resolve waiter source ∈ later.agenda.events

theorem heeds_refl (network : Network) : network.Heeds network :=
  ⟨network.progress_refl, network.agenda.extends_refl,
    fun _ _ _ before after => by simp [before] at after⟩

theorem Heeds.trans {first second third : Network} (earlier : first.Heeds second)
    (later : second.Heeds third) : first.Heeds third := by
  refine ⟨earlier.progress.trans later.progress, earlier.agenda.trans later.agenda,
    fun waiter source waits before after => ?_⟩
  cases middle : second.isPropagated source with
  | true => exact later.agenda.events _ (earlier.told waiter source waits before middle)
  | false => exact later.told waiter source (earlier.progress.waits.2 waits) middle after

/-- Where nothing is completed nobody has to be told. -/
theorem heeds_of_same {network later : Network} (progress : network.Progress later)
    (agenda : network.agenda.Extends later.agenda)
    (same : ∀ key, later.isPropagated key = network.isPropagated key) : network.Heeds later :=
  ⟨progress, agenda, fun _ source _ before after => by simp [same source, before] at after⟩

theorem heeds_of_trees {network later : Network} (trees : later.trees = network.trees)
    (agenda : network.agenda.Extends later.agenda) : network.Heeds later := by
  refine heeds_of_same (progress_of_trees trees) agenda fun key => ?_
  obtain ⟨otherTrees, events, maxSteps, counts, changed⟩ := later
  obtain rfl : otherTrees = network.trees := trees
  rfl

theorem isPropagated_propagateKey {network : Network} {key query : Address}
    (different : query ≠ key) :
    (network.propagateKey key).isPropagated query = network.isPropagated query := by
  unfold isPropagated
  rw [cell?_propagateKey, if_neg different]

theorem Passive.heeds_propagateKey {network : Network} (passive : network.Passive) (key : Address) :
    network.Heeds (network.propagateKey key) := by
  refine ⟨(network.marks_propagateKey key).progress, ?_, fun waiter source waits before after => ?_⟩
  · unfold propagateKey
    split
    · exact network.agenda.extends_refl
    · split
      · exact network.agenda.extends_refl
      · exact Agenda.extends_foldl_pushResolve _ key network.agenda
  · by_cases same : source = key
    · subst same
      obtain ⟨marked, found, -⟩ := isPropagated_iff.1 after
      obtain ⟨cell, foundCell, -⟩ := (network.marks_propagateKey source).origin found
      refine resolve_mem_propagateKey.2 (Or.inr ⟨rfl, cell, foundCell, ?_,
        passive.linked waiter source cell waits foundCell⟩)
      simpa [isPropagated, foundCell] using before
    · simp [isPropagated_propagateKey same, before] at after

theorem Passive.heeds_runAndPropagate {network : Network} (passive : network.Passive)
    (cascade : Cascade) (key : Address) : network.Heeds (network.runAndPropagate cascade key) := by
  obtain ⟨marks, agenda⟩ := marks_runKey cascade (Or.inr (passive.vacant key.tree))
  have ran : network.Heeds (network.runKey cascade key) := by
    refine heeds_of_same marks.progress (agenda ▸ network.agenda.extends_refl) fun query => ?_
    unfold isPropagated
    cases found : network.cell? query with
    | some cell =>
      obtain ⟨after, foundAfter, same⟩ := marks.found found
      simp only [foundAfter, Option.map_some, Option.getD_some]
      exact Bool.eq_iff_iff.2 (by simpa using same.propagated)
    | none =>
      obtain ⟨change, -, after⟩ := marks.cell query
      simp [after, found]
  exact ran.trans ((passive.progress ran.progress).heeds_propagateKey key)

theorem Passive.heeds_complete {network : Network} (passive : network.Passive) (cascade : Cascade)
    (key : Address) : network.Heeds (network.complete cascade key) := by
  have fold : ∀ (paths : List Path) {now : Network}, now.Passive → now.Heeds (paths.foldl
      (fun network path => network.runAndPropagate cascade ⟨key.tree, path⟩) now) := by
    intro paths
    induction paths with
    | nil => exact fun {now} _ => now.heeds_refl
    | cons first rest ih =>
      intro now passive
      have head := passive.heeds_runAndPropagate cascade ⟨key.tree, first⟩
      exact head.trans (ih (passive.progress head.progress))
  unfold complete
  split
  · exact network.heeds_refl
  · rename_i tree live
    have below := fold (tree.following key.path).ready passive
    have done := (passive.progress below.progress).heeds_runAndPropagate cascade key
    exact (below.trans done).trans (heeds_of_trees rfl (Agenda.extends_pushChecks _ _))

theorem bindCommand_eq_self {network : Network} {handle : Handle}
    (vacant : network.command? handle = none) (source : Address) (callback : Callback) :
    network.bindCommand handle source callback = network := by
  unfold bindCommand
  simp only [vacant]
  split <;> simp

/-- The network with an edge satisfied. -/
def closeEdge (network : Network) (waiter source : Address) : Network :=
  network.updateCell waiter fun cell =>
    { cell with waiting := cell.waiting.insert source ⟨true, none⟩ }

theorem progress_closeEdge {network : Network} {waiter source : Address}
    (waits : network.Waits waiter source) : network.Progress (network.closeEdge waiter source) := by
  refine network.progress_updateCell waiter fun cell found => ⟨rfl, rfl, rfl, rfl, id,
    fun other after held => ?_, fun other edge held => ?_⟩
  · simp only [Std.ExtTreeMap.getElem?_insert, Std.compare_eq_iff_eq] at held
    by_cases same : source = other
    · obtain ⟨done, holder, edge, present, waiting, -⟩ := waits
      obtain rfl : cell = holder := Option.some.inj (found.symm.trans present)
      exact ⟨edge, same ▸ waiting⟩
    · rw [if_neg same] at held
      exact ⟨after, held⟩
  · simp only [Std.ExtTreeMap.getElem?_insert, Std.compare_eq_iff_eq]
    by_cases same : source = other
    · exact ⟨⟨true, none⟩, by simp [same], fun _ => rfl⟩
    · exact ⟨edge, by simpa [same] using held, id⟩

theorem isPropagated_closeEdge (network : Network) (waiter source key : Address) :
    (network.closeEdge waiter source).isPropagated key = network.isPropagated key := by
  unfold isPropagated closeEdge
  rw [cell?_updateCell]
  by_cases same : key = waiter
  · rw [if_pos same, same, Option.map_map]
    rfl
  · rw [if_neg same]

theorem hasEdge_closeEdge {network : Network} {waiter source : Address}
    (waits : network.Waits waiter source) :
    (network.closeEdge waiter source).HasEdge waiter source true := by
  obtain ⟨done, holder, edge, present, -⟩ := waits
  exact ⟨{ holder with waiting := holder.waiting.insert source ⟨true, none⟩ }, ⟨true, none⟩,
    by simp [closeEdge, present], Std.ExtTreeMap.getElem?_insert_self, rfl⟩

theorem hasEdge_closeEdge_of_ne {network : Network} {waiter source other target : Address}
    {state : Bool} (different : target ≠ source) (held : network.HasEdge other target state) :
    (network.closeEdge waiter source).HasEdge other target state := by
  obtain ⟨holder, edge, present, waiting, rfl⟩ := held
  by_cases same : other = waiter
  · subst same
    refine ⟨{ holder with waiting := holder.waiting.insert source ⟨true, none⟩ }, edge,
      by simp [closeEdge, present], ?_, rfl⟩
    simpa [Std.ExtTreeMap.getElem?_insert, Ne.symm different] using waiting
  · exact ⟨holder, edge, by simp [closeEdge, same, present], waiting, rfl⟩

/-- Without commands, satisfying an edge does nothing else but count. -/
theorem Passive.satisfy_eq {network : Network} (passive : network.Passive)
    (waiter source : Address) :
    (∃ counts, network.satisfy waiter source =
      (true, { network.closeEdge waiter source with counts })) ∧ network.Waits waiter source ∨
    network.satisfy waiter source = (false, network) ∧
      (network.Waits waiter source → network.HasEdge waiter source true) := by
  unfold satisfy
  cases held : network.edge? waiter source with
  | none =>
    have absent : (network.cell? waiter >>= fun cell => cell.waiting[source]?) = none := held
    rw [absent]
    refine Or.inr ⟨rfl, ?_⟩
    rintro ⟨done, waits⟩
    obtain ⟨edge, present, -⟩ := hasEdge_iff_edge?.1 waits
    simp [held] at present
  | some edge =>
    have waits : network.HasEdge waiter source edge.satisfied :=
      hasEdge_iff_edge?.2 ⟨edge, held, rfl⟩
    have present : (network.cell? waiter >>= fun cell => cell.waiting[source]?) = some edge := held
    simp only [present]
    cases state : edge.satisfied with
    | true => exact Or.inr ⟨rfl, fun _ => state ▸ waits⟩
    | false =>
      refine Or.inl ⟨?_, _, waits⟩
      simp only [Bool.false_eq_true, ↓reduceIte]
      cases edge.callback with
      | none => exact ⟨network.counts, rfl⟩
      | some callback =>
        refine ⟨{ network.counts with callbacks := network.counts.callbacks + 1 }, ?_⟩
        dsimp only
        rw [bindCommand_eq_self]
        · rfl
        · exact ((network.sameRoles_updateCell waiter _).command? waiter.tree).trans
            (passive.vacant waiter.tree)

/-- An edge is satisfied, and all other edges are as they were. -/
structure Satisfies (network later : Network) (waiter source : Address) : Prop where
  heeds : network.Heeds later
  same : ∀ key, later.isPropagated key = network.isPropagated key
  done : network.Waits waiter source → later.HasEdge waiter source true
  others : ∀ other target state, target ≠ source → network.HasEdge other target state →
    later.HasEdge other target state

theorem Passive.satisfies {network : Network} (passive : network.Passive)
    (waiter source : Address) :
    Satisfies network (network.satisfy waiter source).2 waiter source := by
  rcases passive.satisfy_eq waiter source with ⟨⟨counts, after⟩, waits⟩ | ⟨after, closed⟩
  · rw [after]
    have same := network.isPropagated_closeEdge waiter source
    exact ⟨heeds_of_same ((progress_closeEdge waits).trans (progress_of_trees rfl))
        network.agenda.extends_refl same, same, hasEdge_closeEdge,
      fun _ _ _ different => hasEdge_closeEdge_of_ne different⟩
  · rw [after]
    exact ⟨network.heeds_refl, fun _ => rfl, closed, fun _ _ _ _ => id⟩

theorem Move.heeds {network later : Network} {looks : List Look} (move : Move network looks later)
    (passive : network.Passive) : network.Heeds later := by
  cases move with
  | satisfy => exact (passive.satisfies _ _).heeds
  | pass => exact network.heeds_refl
  | complete => exact passive.heeds_complete _ _

theorem Run.heeds {network later : Network} {looks : List Look} (run : Run network looks later)
    (passive : network.Passive) : network.Heeds later := by
  induction run with
  | refl network => exact network.heeds_refl
  | step move _ ih =>
    have first := move.heeds passive
    exact first.trans (ih (passive.progress first.progress))

end Network

end ConceptLaws.Propagation
