import ConceptLaws.Proofs.Propagation.Stride

/-! Progress without commands.
A cascade marks keys as complete and satisfies edges. Which keys there are, what frees or bars them
and what they wait on stays as it was, so every look finds no more open edges than the one before.
-/

namespace ConceptLaws.Propagation

/-! ## Cells and trees -/

/-- The cell may have been marked as complete, and edges of it may have been satisfied. -/
structure Cell.Progress (cell later : Cell) : Prop where
  active : later.active = cell.active
  known : later.known = cell.known
  blocked : later.blocked = cell.blocked
  triggers : later.triggers = cell.triggers
  propagated : cell.propagated = true → later.propagated = true
  held : ∀ (source : Address) (after : Edge), later.waiting[source]? = some after →
    ∃ edge, cell.waiting[source]? = some edge
  satisfied : ∀ (source : Address) (edge : Edge), cell.waiting[source]? = some edge →
    ∃ after, later.waiting[source]? = some after ∧ (edge.satisfied = true → after.satisfied = true)

theorem Cell.progress_refl (cell : Cell) : cell.Progress cell :=
  ⟨rfl, rfl, rfl, rfl, id, fun _ edge found => ⟨edge, found⟩, fun _ edge found => ⟨edge, found, id⟩⟩

theorem Cell.Progress.trans {first second third : Cell} (earlier : first.Progress second)
    (later : second.Progress third) : first.Progress third := by
  refine ⟨later.active.trans earlier.active, later.known.trans earlier.known,
    later.blocked.trans earlier.blocked, later.triggers.trans earlier.triggers,
    later.propagated ∘ earlier.propagated, fun source after found => ?_,
    fun source edge found => ?_⟩
  · obtain ⟨middle, foundMiddle⟩ := later.held source after found
    exact earlier.held source middle foundMiddle
  · obtain ⟨middle, foundMiddle, satisfied⟩ := earlier.satisfied source edge found
    obtain ⟨after, foundAfter, satisfiedAfter⟩ := later.satisfied source middle foundMiddle
    exact ⟨after, foundAfter, satisfiedAfter ∘ satisfied⟩

theorem Cell.Marked.progress {mark : Prop} {cell later : Cell}
    (marked : Cell.Marked mark cell later) :
    cell.Progress later := by
  refine ⟨marked.active, marked.known, marked.blocked, marked.triggers,
    fun done => marked.propagated.2 (Or.inl done), fun source after found => ?_,
    fun source edge found => ?_⟩
  · exact ⟨after, marked.waiting ▸ found⟩
  · exact ⟨edge, marked.waiting ▸ found, id⟩

namespace Tree

/-- The tree holds the same keys, each as it was or further on. -/
structure Progress (tree later : Tree) : Prop where
  role : later.role = tree.role
  found : ∀ path cell, tree.cell? path = some cell →
    ∃ after, later.cell? path = some after ∧ cell.Progress after
  origin : ∀ path after, later.cell? path = some after →
    ∃ cell, tree.cell? path = some cell ∧ cell.Progress after

theorem Progress.exposed {tree later : Tree} (progress : tree.Progress later) {top path : Path} :
    later.Exposed top path ↔ tree.Exposed top path := by
  constructor
  · intro exposed above cell found known
    obtain ⟨after, foundAfter, further⟩ := progress.found above cell found
    exact exposed above after foundAfter (further.known.trans known)
  · intro exposed above after found known
    obtain ⟨cell, foundCell, further⟩ := progress.origin above after found
    exact exposed above cell foundCell (further.known.symm.trans known)

theorem Progress.pending?_eq_none_iff {tree later : Tree} (progress : tree.Progress later)
    {top : Path} : later.pending? top = none ↔ tree.pending? top = none := by
  rw [Tree.pending?_eq_none_iff, Tree.pending?_eq_none_iff]
  constructor
  · rintro ⟨path, after, found, within, exposed, blocked⟩
    obtain ⟨cell, foundCell, further⟩ := progress.origin path after found
    exact ⟨path, cell, foundCell, within, progress.exposed.1 exposed,
      further.blocked.symm.trans blocked⟩
  · rintro ⟨path, cell, found, within, exposed, blocked⟩
    obtain ⟨after, foundAfter, further⟩ := progress.found path cell found
    exact ⟨path, after, foundAfter, within, progress.exposed.2 exposed,
      further.blocked.trans blocked⟩

/-- Of the open edges some may be satisfied later, and no others are open then. -/
theorem Progress.mem_pending? {tree later : Tree} (progress : tree.Progress later) {top : Path}
    {edges rest : List (Path × Address)} (scanned : tree.pending? top = some edges)
    (scannedLater : later.pending? top = some rest) {path : Path} {source : Address} :
    (path, source) ∈ rest ↔ (path, source) ∈ edges ∧
      ∃ after, later.cell? path = some after ∧ source ∈ after.pending := by
  rw [Tree.mem_pending? scannedLater, Tree.mem_pending? scanned]
  constructor
  · rintro ⟨after, found, within, exposed, waits⟩
    obtain ⟨cell, foundCell, further⟩ := progress.origin path after found
    refine ⟨⟨cell, foundCell, within, progress.exposed.1 exposed, ?_⟩, after, found, waits⟩
    obtain ⟨edge, held, unsatisfied⟩ := mem_pending.1 waits
    obtain ⟨before, heldBefore⟩ := further.held source edge held
    obtain ⟨other, heldOther, satisfied⟩ := further.satisfied source before heldBefore
    obtain rfl : edge = other := Option.some.inj (held.symm.trans heldOther)
    refine mem_pending.2 ⟨before, heldBefore, ?_⟩
    cases state : before.satisfied with
    | false => rfl
    | true => simp [satisfied state] at unsatisfied
  · rintro ⟨⟨cell, foundCell, within, exposed, -⟩, after, found, waits⟩
    exact ⟨after, found, within, progress.exposed.2 exposed, waits⟩

end Tree

/-! ## Networks -/

namespace Network

structure Progress (network later : Network) : Prop where
  roles : network.SameRoles later
  found : ∀ key cell, network.cell? key = some cell →
    ∃ after, later.cell? key = some after ∧ cell.Progress after
  origin : ∀ key after, later.cell? key = some after →
    ∃ cell, network.cell? key = some cell ∧ cell.Progress after

theorem progress_refl (network : Network) : network.Progress network :=
  ⟨fun _ => rfl, fun _ cell found => ⟨cell, found, cell.progress_refl⟩,
    fun _ cell found => ⟨cell, found, cell.progress_refl⟩⟩

theorem Progress.trans {first second third : Network} (earlier : first.Progress second)
    (later : second.Progress third) : first.Progress third := by
  refine ⟨earlier.roles.trans later.roles, fun key cell found => ?_, fun key after found => ?_⟩
  · obtain ⟨middle, foundMiddle, further⟩ := earlier.found key cell found
    obtain ⟨after, foundAfter, furtherAfter⟩ := later.found key middle foundMiddle
    exact ⟨after, foundAfter, further.trans furtherAfter⟩
  · obtain ⟨middle, foundMiddle, furtherAfter⟩ := later.origin key after found
    obtain ⟨cell, foundCell, further⟩ := earlier.origin key middle foundMiddle
    exact ⟨cell, foundCell, further.trans furtherAfter⟩

theorem Marks.progress {network later : Network} {marked : Address → Prop}
    (marks : network.Marks later marked) : network.Progress later := by
  refine ⟨marks.role, fun key cell found => ?_, fun key after found => ?_⟩
  · obtain ⟨after, foundAfter, same⟩ := marks.found found
    exact ⟨after, foundAfter, same.progress⟩
  · obtain ⟨cell, foundCell, same⟩ := marks.origin found
    exact ⟨cell, foundCell, same.progress⟩

theorem progress_of_trees {network later : Network} (trees : later.trees = network.trees) :
    network.Progress later :=
  (marks_of_trees trees).progress

theorem progress_updateCell (network : Network) (key : Address) {change : Cell → Cell}
    (further : ∀ cell, network.cell? key = some cell → cell.Progress (change cell)) :
    network.Progress (network.updateCell key change) := by
  refine ⟨network.sameRoles_updateCell key change, fun query cell found => ?_,
    fun query after found => ?_⟩
  · rw [cell?_updateCell]
    by_cases same : query = key
    · subst same
      exact ⟨change cell, by simp [found], further cell found⟩
    · exact ⟨cell, by rw [if_neg same, found], cell.progress_refl⟩
  · rw [cell?_updateCell] at found
    by_cases same : query = key
    · subst same
      rw [if_pos rfl, Option.map_eq_some_iff] at found
      obtain ⟨cell, foundCell, rfl⟩ := found
      exact ⟨cell, foundCell, further cell foundCell⟩
    · rw [if_neg same] at found
      exact ⟨after, found, after.progress_refl⟩

theorem Progress.tree {network later : Network} (progress : network.Progress later)
    {handle : Handle} {tree : Tree} (live : network.tree? handle = some tree) :
    ∃ after, later.tree? handle = some after ∧ tree.Progress after := by
  have roles := progress.roles handle
  rw [live, Option.map_some, Option.map_eq_some_iff] at roles
  obtain ⟨after, liveAfter, role⟩ := roles
  refine ⟨after, liveAfter, role, fun path cell found => ?_, fun path cell found => ?_⟩
  · obtain ⟨further, foundFurther, grown⟩ :=
      progress.found ⟨handle, path⟩ cell (cell?_eq_some_iff.2 ⟨tree, live, found⟩)
    rw [cell?_of_tree? liveAfter] at foundFurther
    exact ⟨further, foundFurther, grown⟩
  · obtain ⟨before, foundBefore, grown⟩ :=
      progress.origin ⟨handle, path⟩ cell (cell?_eq_some_iff.2 ⟨after, liveAfter, found⟩)
    rw [cell?_of_tree? live] at foundBefore
    exact ⟨before, foundBefore, grown⟩

theorem Progress.isPropagated {network later : Network} (progress : network.Progress later)
    {key : Address} (propagated : network.isPropagated key = true) :
    later.isPropagated key = true := by
  obtain ⟨cell, found, done⟩ := isPropagated_iff.1 propagated
  obtain ⟨after, foundAfter, further⟩ := progress.found key cell found
  exact isPropagated_iff.2 ⟨after, foundAfter, further.propagated done⟩

theorem Progress.isActive {network later : Network} (progress : network.Progress later)
    (key : Address) : later.isActive key = network.isActive key := by
  unfold Network.isActive
  cases found : network.cell? key with
  | some cell =>
    obtain ⟨after, foundAfter, further⟩ := progress.found key cell found
    simp [foundAfter, further.active]
  | none =>
    cases foundAfter : later.cell? key with
    | none => rfl
    | some after =>
      obtain ⟨cell, present, -⟩ := progress.origin key after foundAfter
      simp [found] at present

theorem Progress.waits {network later : Network} (progress : network.Progress later)
    {waiter source : Address} : later.Waits waiter source ↔ network.Waits waiter source := by
  constructor
  · rintro ⟨done, after, edge, found, held, -⟩
    obtain ⟨cell, foundCell, further⟩ := progress.origin waiter after found
    obtain ⟨before, heldBefore⟩ := further.held source edge held
    exact ⟨before.satisfied, cell, before, foundCell, heldBefore, rfl⟩
  · rintro ⟨done, cell, edge, found, held, -⟩
    obtain ⟨after, foundAfter, further⟩ := progress.found waiter cell found
    obtain ⟨edgeAfter, heldAfter, -⟩ := further.satisfied source edge held
    exact ⟨edgeAfter.satisfied, after, edgeAfter, foundAfter, heldAfter, rfl⟩

theorem Progress.satisfied {network later : Network} (progress : network.Progress later)
    {waiter source : Address} (held : network.HasEdge waiter source true) :
    later.HasEdge waiter source true := by
  obtain ⟨cell, edge, found, waits, done⟩ := held
  obtain ⟨after, foundAfter, further⟩ := progress.found waiter cell found
  obtain ⟨edgeAfter, waitsAfter, satisfied⟩ := further.satisfied source edge waits
  exact ⟨after, edgeAfter, foundAfter, waitsAfter, satisfied done⟩

theorem hasEdge_unique {network : Network} {waiter source : Address} {first second : Bool}
    (held : network.HasEdge waiter source first) (heldToo : network.HasEdge waiter source second) :
    first = second := by
  obtain ⟨edge, present, rfl⟩ := hasEdge_iff_edge?.1 held
  obtain ⟨other, presentToo, rfl⟩ := hasEdge_iff_edge?.1 heldToo
  rw [Option.some.inj (present.symm.trans presentToo)]

/-! ## Looks at a key that progresses -/

theorem Progress.able {network later : Network} (progress : network.Progress later) {key : Address}
    {after : Tree} {cellAfter : Cell} (able : later.Able key after cellAfter) :
    ∃ tree cell, network.Able key tree cell ∧ tree.Progress after ∧ cell.Progress cellAfter := by
  obtain ⟨cell, found, further⟩ := progress.origin key cellAfter able.cell?_eq
  obtain ⟨tree, live, present⟩ := cell?_eq_some_iff.1 found
  obtain ⟨other, liveOther, grown⟩ := progress.tree live
  obtain rfl : after = other := Option.some.inj (able.live.symm.trans liveOther)
  refine ⟨tree, cell, ⟨live, present, ?_, further.active.symm.trans able.active,
    further.blocked.symm.trans able.free⟩, grown, further⟩
  cases done : cell.propagated with
  | false => rfl
  | true => simpa [able.waiting] using further.propagated done

/-- A key that is stuck stays so, unless it is completed with one above. -/
theorem Progress.stuck {network later : Network} (progress : network.Progress later) {key : Address}
    (stuck : network.standing key = .stuck) :
    later.standing key = .stuck ∨ later.standing key = .complete := by
  by_cases moving : later.standing key = .stuck
  · exact Or.inl moving
  by_cases finished : later.standing key = .complete
  · exact Or.inr finished
  obtain ⟨after, cellAfter, ableAfter⟩ := able_of_standing later key finished moving
  obtain ⟨tree, cell, able, grown, further⟩ := progress.able ableAfter
  rw [able.standing_eq] at stuck
  rw [ableAfter.standing_eq, further.known, grown.role]
  cases known : cell.known with
  | true => simp [known] at stuck
  | false =>
    cases tabled : tree.role.isVariables with
    | true => simp
    | false =>
      simp only [known, tabled, Bool.false_eq_true, ↓reduceIte] at stuck ⊢
      split at stuck
      · rename_i barred
        rw [grown.pending?_eq_none_iff.2 barred]
        exact Or.inl rfl
      · simp at stuck
      · simp at stuck

/-- A key that waits goes on waiting for some of the same edges, unless it is completed with one
above, and it is ready once none of them is open. -/
theorem Progress.standing_open {network later : Network} (progress : network.Progress later)
    {key : Address} {edges : List (Path × Address)} (waits : network.standing key = .open edges)
    (unfinished : later.isPropagated key = false) :
    later.standing key = .ready ∧ (∀ edge ∈ edges, later.HasEdge ⟨key.tree, edge.1⟩ edge.2 true) ∨
      ∃ rest, later.standing key = .open rest ∧ rest ⊆ edges := by
  obtain ⟨tree, cell, able, unknown, plain, scanned, -⟩ := standing_eq_open_iff.1 waits
  obtain ⟨after, live, grown⟩ := progress.tree able.live
  obtain ⟨cellAfter, found, further⟩ := grown.found key.path cell able.found
  have ableAfter : later.Able key after cellAfter := by
    refine ⟨live, found, ?_, further.active.trans able.active, further.blocked.trans able.free⟩
    have present := cell?_eq_some_iff.2 ⟨after, live, found⟩
    simpa [Network.isPropagated, present] using unfinished
  cases scannedAfter : after.pending? key.path with
  | none => simp [grown.pending?_eq_none_iff.1 scannedAfter] at scanned
  | some rest =>
    cases rest with
    | nil =>
      refine Or.inl ⟨standing_eq_ready_iff.2 ⟨after, cellAfter, ableAfter,
        Or.inr ⟨grown.role ▸ plain, scannedAfter⟩⟩, fun edge member => ?_⟩
      obtain ⟨holder, present, -, -, pending⟩ := (Tree.mem_pending? scanned).1 member
      obtain ⟨before, held, -⟩ := Tree.mem_pending.1 pending
      obtain ⟨holderAfter, presentAfter, furtherHolder⟩ := grown.found edge.1 holder present
      obtain ⟨edgeAfter, heldAfter, -⟩ := furtherHolder.satisfied edge.2 before held
      refine ⟨holderAfter, edgeAfter, cell?_eq_some_iff.2 ⟨after, live, presentAfter⟩,
        heldAfter, ?_⟩
      cases state : edgeAfter.satisfied with
      | true => rfl
      | false =>
        have listed := (grown.mem_pending? scanned scannedAfter).2
          ⟨member, holderAfter, presentAfter, Tree.mem_pending.2 ⟨edgeAfter, heldAfter, state⟩⟩
        simp at listed
    | cons first others =>
      refine Or.inr ⟨first :: others, standing_eq_open_iff.2 ⟨after, cellAfter, ableAfter,
        further.known.trans unknown, grown.role ▸ plain, scannedAfter, by simp⟩,
        fun edge member => ((grown.mem_pending? scanned scannedAfter).1 member).1⟩

theorem Progress.standing_ready {network later : Network} (progress : network.Progress later)
    {key : Address} {edges : List (Path × Address)} (waits : network.standing key = .open edges)
    (unfinished : later.isPropagated key = false)
    (satisfied : ∀ edge ∈ edges, later.HasEdge ⟨key.tree, edge.1⟩ edge.2 true) :
    later.standing key = .ready := by
  rcases progress.standing_open waits unfinished with ⟨ready, -⟩ | ⟨rest, still, subset⟩
  · exact ready
  · obtain ⟨-, -, -, -, -, -, some_⟩ := standing_eq_open_iff.1 still
    obtain ⟨edge, member⟩ := List.exists_mem_of_ne_nil rest some_
    have done := satisfied edge (subset member)
    simpa using hasEdge_unique done (hasEdge_of_open still member)

/-- A key that is ready stays so until it is completed. -/
theorem Progress.still_ready {network later : Network} (progress : network.Progress later)
    {key : Address} (ready : network.standing key = .ready)
    (unfinished : later.isPropagated key = false) : later.standing key = .ready := by
  obtain ⟨tree, cell, able, free⟩ := standing_eq_ready_iff.1 ready
  obtain ⟨after, live, grown⟩ := progress.tree able.live
  obtain ⟨cellAfter, found, further⟩ := grown.found key.path cell able.found
  have present := cell?_eq_some_iff.2 ⟨after, live, found⟩
  refine standing_eq_ready_iff.2 ⟨after, cellAfter, ⟨live, found,
    by simpa [Network.isPropagated, present] using unfinished,
    further.active.trans able.active, further.blocked.trans able.free⟩, ?_⟩
  rcases free with known | ⟨plain, nothing⟩
  · exact Or.inl (further.known.trans known)
  · refine Or.inr ⟨grown.role ▸ plain, ?_⟩
    cases scanned : after.pending? key.path with
    | none => simp [grown.pending?_eq_none_iff.1 scanned] at nothing
    | some rest =>
      congr 1
      exact List.eq_nil_iff_forall_not_mem.2 fun edge member => by
        simpa using ((grown.mem_pending? nothing scanned).1 member).1

end Network

end ConceptLaws.Propagation
