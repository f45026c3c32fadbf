import ConceptLaws.Proofs.Propagation.Execution
import ConceptLaws.Propagation.Cascade

/-! Completing keys.
A look finds a key ready when it is known, or when no exposed edge at or below it is open.
Completing an ordinary key changes values and marks; only the root of a command does more. -/

namespace ConceptLaws.Propagation

/-- The cells differ in nothing but their values, and in that one is marked as complete. -/
structure Cell.Marked (mark : Prop) (cell later : Cell) : Prop where
  active : later.active = cell.active
  known : later.known = cell.known
  blocked : later.blocked = cell.blocked
  waiting : later.waiting = cell.waiting
  triggers : later.triggers = cell.triggers
  propagated : later.propagated = true ↔ cell.propagated = true ∨ mark

namespace Network

/-! ## Standings -/

theorem standing_eq_complete_iff {network : Network} {key : Address} :
    network.standing key = .complete ↔ network.isPropagated key = true := by
  unfold standing isPropagated cell?
  cases network.tree? key.tree with
  | none => simp
  | some tree =>
    simp only [Option.bind_eq_bind, Option.bind_some]
    cases tree.cell? key.path with
    | none => simp
    | some cell =>
      simp only [Option.map_some, Option.getD_some]
      split
      · simp_all
      · rename_i waiting
        simp only [waiting, Bool.false_eq_true, iff_false]
        repeat' split
        all_goals simp

/-- A key that can be worked on. -/
structure Able (network : Network) (key : Address) (tree : Tree) (cell : Cell) : Prop where
  live : network.tree? key.tree = some tree
  found : tree.cell? key.path = some cell
  waiting : cell.propagated = false
  active : cell.active = true
  free : cell.blocked = false

theorem Able.cell?_eq {network : Network} {key : Address} {tree : Tree} {cell : Cell}
    (able : network.Able key tree cell) : network.cell? key = some cell :=
  cell?_eq_some_iff.2 ⟨tree, able.live, able.found⟩

theorem Able.standing_eq {network : Network} {key : Address} {tree : Tree} {cell : Cell}
    (able : network.Able key tree cell) :
    network.standing key =
      if cell.known then .ready
      else if tree.role.isVariables then .stuck
      else match tree.pending? key.path with
        | none => .stuck
        | some [] => .ready
        | some edges => .open edges := by
  have waiting : ¬cell.propagated = true := by simp [able.waiting]
  have free : ¬(!cell.active || cell.blocked) = true := by simp [able.active, able.free]
  unfold standing
  rw [able.live]
  dsimp only
  rw [able.found]
  exact (if_neg waiting).trans (if_neg free)

theorem able_of_standing (network : Network) (key : Address)
    (unfinished : network.standing key ≠ .complete) (moving : network.standing key ≠ .stuck) :
    ∃ tree cell, network.Able key tree cell := by
  unfold standing at unfinished moving
  cases live : network.tree? key.tree with
  | none => simp [live] at moving
  | some tree =>
    cases found : tree.cell? key.path with
    | none => simp [live, found] at moving
    | some cell =>
      simp only [live, found] at unfinished moving
      cases waiting : cell.propagated with
      | true => simp [waiting] at unfinished
      | false =>
        cases stuck : (!cell.active || cell.blocked) with
        | true => simp [waiting, stuck] at moving
        | false =>
          simp only [Bool.or_eq_false_iff, Bool.not_eq_false'] at stuck
          exact ⟨tree, cell, live, found, waiting, stuck.1, stuck.2⟩

/-- A look finds a key ready, because it is known or because nothing is open. -/
theorem standing_eq_ready_iff {network : Network} {key : Address} :
    network.standing key = .ready ↔ ∃ tree cell, network.Able key tree cell ∧
      (cell.known = true ∨
        tree.role.isVariables = false ∧ tree.pending? key.path = some []) := by
  constructor
  · intro ready
    obtain ⟨tree, cell, able⟩ := able_of_standing network key (by simp [ready]) (by simp [ready])
    refine ⟨tree, cell, able, ?_⟩
    rw [able.standing_eq] at ready
    cases known : cell.known with
    | true => exact Or.inl rfl
    | false =>
      cases tabled : tree.role.isVariables with
      | true => simp [known, tabled] at ready
      | false =>
        simp only [known, tabled, Bool.false_eq_true, ↓reduceIte] at ready
        split at ready <;> simp_all
  · rintro ⟨tree, cell, able, known | ⟨plain, nothing⟩⟩
    · simp [able.standing_eq, known]
    · simp [able.standing_eq, plain, nothing]

theorem standing_eq_open_iff {network : Network} {key : Address} {edges : List (Path × Address)} :
    network.standing key = .open edges ↔ ∃ tree cell, network.Able key tree cell ∧
      cell.known = false ∧ tree.role.isVariables = false ∧
        tree.pending? key.path = some edges ∧ edges ≠ [] := by
  constructor
  · intro waits
    obtain ⟨tree, cell, able⟩ := able_of_standing network key (by simp [waits]) (by simp [waits])
    refine ⟨tree, cell, able, ?_⟩
    rw [able.standing_eq] at waits
    cases known : cell.known with
    | true => simp [known] at waits
    | false =>
      cases tabled : tree.role.isVariables with
      | true => simp [known, tabled] at waits
      | false =>
        simp only [known, tabled, Bool.false_eq_true, ↓reduceIte] at waits
        split at waits <;> simp_all
  · rintro ⟨tree, cell, able, unknown, plain, scanned, some_⟩
    rw [able.standing_eq]
    cases edges with
    | nil => simp at some_
    | cons first rest => simp [unknown, plain, scanned]

/-- The open edges that a look finds are held. -/
theorem hasEdge_of_open {network : Network} {key : Address} {edges : List (Path × Address)}
    (waits : network.standing key = .open edges) {path : Path} {source : Address}
    (member : (path, source) ∈ edges) : network.HasEdge ⟨key.tree, path⟩ source false := by
  obtain ⟨tree, cell, able, -, -, scanned, -⟩ := standing_eq_open_iff.1 waits
  obtain ⟨holder, present, -, -, held⟩ := (Tree.mem_pending? scanned).1 member
  obtain ⟨edge, holds, unsatisfied⟩ := Tree.mem_pending.1 held
  exact ⟨holder, edge, cell?_eq_some_iff.2 ⟨tree, able.live, present⟩, holds, unsatisfied⟩

/-! ## Decisions -/

/-- What is completed with a key is free, and what is exposed at and below it is satisfied. -/
structure Justified (tree : Tree) (top : Path) : Prop where
  free : ∀ path, path = top ∨ path ∈ (tree.following top).ready →
    ∃ cell, tree.cell? path = some cell ∧ cell.blocked = false
  satisfied : ∀ path cell (source : Address) edge, tree.cell? path = some cell →
    path.isWithin top = true → tree.Exposed top path → cell.waiting[source]? = some edge →
      edge.satisfied = true

theorem settleKey_ready {probe : Option Probe} {key : Address} {turns : Nat}
    {network settled : Network} (decided : settleKey probe key turns network = (.ready, settled)) :
    settled.standing key = .ready := by
  induction turns generalizing network with
  | zero => simp [settleKey] at decided
  | succ turns ih =>
    unfold settleKey at decided
    cases stands : network.standing key with
    | complete => simp [stands] at decided
    | stuck => simp [stands] at decided
    | ready =>
      simp only [stands] at decided
      obtain ⟨-, rfl⟩ := Prod.mk.inj decided
      exact stands
    | «open» edges =>
      simp only [stands] at decided
      split at decided
      · exact ih decided
      · cases probe with
        | none => simp at decided
        | some ask =>
          dsimp only at decided
          split at decided
          · simp at decided
          · exact ih decided

theorem justified_of_ready {network : Network} {key : Address} {cell : Cell}
    (ready : network.standing key = .ready) (found : network.cell? key = some cell)
    (unknown : cell.known = false) :
    ∃ tree, network.tree? key.tree = some tree ∧ Justified tree key.path := by
  obtain ⟨tree, other, able, free⟩ := standing_eq_ready_iff.1 ready
  obtain rfl : cell = other := Option.some.inj (found.symm.trans able.cell?_eq)
  obtain ⟨-, nothing⟩ := free.resolve_left (by simp [unknown])
  refine ⟨tree, able.live, ?_, ?_⟩
  · rintro path (rfl | member)
    · exact ⟨cell, able.found, able.free⟩
    · obtain ⟨-, below, present, -, -, -, unblocked⟩ := Tree.mem_ready_following member
      exact ⟨below, present, unblocked⟩
  · intro path holder source edge present within exposed held
    cases state : edge.satisfied with
    | true => rfl
    | false =>
      have listed := (Tree.mem_pending? nothing).2
        ⟨holder, present, within, exposed, Tree.mem_pending.2 ⟨edge, held, state⟩⟩
      simp at listed

/-! ## Marks -/

/-- Values change, and the keys told are marked as complete. -/
structure Marks (network later : Network) (marked : Address → Prop) : Prop where
  role : ∀ handle, (later.tree? handle).map Tree.role = (network.tree? handle).map Tree.role
  cell : ∀ key, ∃ change, (∀ cell, Cell.Marked (marked key) cell (change cell)) ∧
    later.cell? key = (network.cell? key).map change

theorem marks_of_trees {network later : Network} (trees : later.trees = network.trees) :
    network.Marks later fun _ => False := by
  obtain ⟨otherTrees, agenda, maxSteps, counts, changed⟩ := later
  obtain rfl : otherTrees = network.trees := trees
  exact ⟨fun _ => rfl, fun key => ⟨id, fun cell => ⟨rfl, rfl, rfl, rfl, rfl, by simp⟩,
    by rw [Option.map_id, id_eq]; rfl⟩⟩

theorem Marks.trans {first second third : Network} {early late : Address → Prop}
    (earlier : first.Marks second early) (later : second.Marks third late) :
    first.Marks third fun key => early key ∨ late key := by
  refine ⟨fun handle => (later.role handle).trans (earlier.role handle), fun key => ?_⟩
  obtain ⟨change, marked, after⟩ := earlier.cell key
  obtain ⟨changeLater, markedLater, afterLater⟩ := later.cell key
  refine ⟨changeLater ∘ change, fun cell => ?_, by rw [afterLater, after, Option.map_map]⟩
  have first := marked cell
  have second := markedLater (change cell)
  exact ⟨second.active.trans first.active, second.known.trans first.known,
    second.blocked.trans first.blocked, second.waiting.trans first.waiting,
    second.triggers.trans first.triggers, by
      rw [Function.comp_apply, second.propagated, first.propagated, or_assoc]⟩

theorem Marks.congr {network later : Network} {marked other : Address → Prop}
    (marks : network.Marks later marked) (same : ∀ key, marked key ↔ other key) :
    network.Marks later other := by
  obtain rfl : marked = other := funext fun key => propext (same key)
  exact marks

theorem marks_updateCell (network : Network) (key : Address) {change : Cell → Cell} (mark : Prop)
    (marked : ∀ cell, Cell.Marked mark cell (change cell)) :
    network.Marks (network.updateCell key change) fun query => query = key ∧ mark := by
  refine ⟨fun handle => ?_, fun query => ?_⟩
  · rw [tree?_updateCell]
    by_cases same : handle = key.tree
    · rw [if_pos same, same, Option.map_map]
      rfl
    · rw [if_neg same]
  · rw [cell?_updateCell]
    by_cases same : query = key
    · subst same
      exact ⟨change, by simpa using marked, by simp⟩
    · exact ⟨id, fun cell => ⟨rfl, rfl, rfl, rfl, rfl, by simp [same]⟩, by simp [same]⟩

theorem Marks.found {network later : Network} {marked : Address → Prop}
    (marks : network.Marks later marked) {key : Address} {cell : Cell}
    (found : network.cell? key = some cell) :
    ∃ after, later.cell? key = some after ∧ cell.Marked (marked key) after := by
  obtain ⟨change, same, after⟩ := marks.cell key
  exact ⟨change cell, by rw [after, found, Option.map_some], same cell⟩

theorem Marks.origin {network later : Network} {marked : Address → Prop}
    (marks : network.Marks later marked) {key : Address} {cell : Cell}
    (found : later.cell? key = some cell) :
    ∃ before, network.cell? key = some before ∧ before.Marked (marked key) cell := by
  obtain ⟨change, same, after⟩ := marks.cell key
  rw [after, Option.map_eq_some_iff] at found
  obtain ⟨before, foundBefore, rfl⟩ := found
  exact ⟨before, foundBefore, same before⟩

/-! ## Telling that a key is complete -/

theorem resolve_mem_foldl_pushResolve {agenda : Agenda} {waiters : List Address}
    {key waiter source : Address} :
    Event.resolve waiter source ∈
        (waiters.foldl (fun agenda waiter => agenda.pushResolve waiter key) agenda).events ↔
      Event.resolve waiter source ∈ agenda.events ∨ waiter ∈ waiters ∧ source = key := by
  induction waiters generalizing agenda with
  | nil => simp
  | cons first rest ih =>
    rw [List.foldl_cons, ih]
    simp [Agenda.pushResolve, or_and_right, or_assoc]

@[simp] theorem cell?_propagateKey (network : Network) (key query : Address) :
    (network.propagateKey key).cell? query =
      if query = key then (network.cell? key).map fun cell => { cell with propagated := true }
      else network.cell? query := by
  unfold propagateKey
  cases found : network.cell? key with
  | none =>
    by_cases same : query = key
    · simp [same, found]
    · simp [same]
  | some cell =>
    cases done : cell.propagated with
    | true =>
      have unchanged : { cell with propagated := true } = cell := by
        cases cell
        simp_all
      by_cases same : query = key
      · simp [same, found, done, unchanged]
      · simp [same, done]
    | false => simp [done, found]

theorem role_propagateKey (network : Network) (key : Address) (handle : Handle) :
    ((network.propagateKey key).tree? handle).map Tree.role =
      (network.tree? handle).map Tree.role := by
  unfold propagateKey
  split
  · rfl
  · split
    · rfl
    · exact (network.marks_updateCell key True fun _ => by
        exact ⟨rfl, rfl, rfl, rfl, rfl, by simp⟩).role handle

theorem marks_propagateKey (network : Network) (key : Address) :
    network.Marks (network.propagateKey key) fun query => query = key := by
  refine ⟨network.role_propagateKey key, fun query => ?_⟩
  by_cases same : query = key
  · subst same
    exact ⟨fun cell => { cell with propagated := true },
      fun cell => ⟨rfl, rfl, rfl, rfl, rfl, by simp⟩, by simp⟩
  · exact ⟨id, fun cell => ⟨rfl, rfl, rfl, rfl, rfl, by simp [same]⟩, by simp [same]⟩

theorem resolve_mem_propagateKey {network : Network} {key waiter source : Address} :
    Event.resolve waiter source ∈ (network.propagateKey key).agenda.events ↔
      Event.resolve waiter source ∈ network.agenda.events ∨ source = key ∧
        ∃ cell, network.cell? key = some cell ∧ cell.propagated = false ∧
          waiter ∈ cell.triggers := by
  unfold propagateKey
  cases network.cell? key with
  | none => simp
  | some cell =>
    cases done : cell.propagated with
    | true => simp [done]
    | false =>
      simp only [done, Bool.false_eq_true, ↓reduceIte, updateAgenda, updateCounts, updateCell,
        updateTree, resolve_mem_foldl_pushResolve, Std.ExtTreeSet.mem_toList, Option.some.injEq,
        exists_eq_left', true_and, and_comm]

/-- An active key can be marked as complete, and all its waiters are told. -/
theorem Sound.advances_propagateKey {network : Network} (sound : network.Sound) {key : Address}
    (active : ∀ cell, network.cell? key = some cell → cell.active = true) :
    network.Advances (network.propagateKey key) := by
  unfold propagateKey
  cases found : network.cell? key with
  | none => exact sound.advances_refl
  | some cell =>
    cases done : cell.propagated with
    | true => simpa [done] using sound.advances_refl
    | false =>
      have marked := sound.advances_propagated active
      simp only [done, Bool.false_eq_true, ↓reduceIte]
      refine marked.trans (marked.sound.advances_agenda rfl fun waiter source member => ?_)
      rcases resolve_mem_foldl_pushResolve.1 member with old | ⟨told, rfl⟩
      · exact Or.inl old
      · obtain ⟨tree, live, -⟩ := cell?_eq_some_iff.1 found
        refine Or.inr ⟨marked.evolves.issued _ (Arena.issued_of_get? live), fun _ => ?_⟩
        exact ⟨{ cell with propagated := true }, by simp [found],
          Std.ExtTreeSet.mem_toList.1 told, fun _ => rfl⟩

/-! ## Completing -/

/-- Away from the roots of commands, what belongs to a key is a matter of values. -/
theorem marks_runKey (cascade : Cascade) {network : Network} {key : Address}
    (ordinary : key.path ≠ Path.root ∨ network.command? key.tree = none) :
    network.Marks (network.runKey cascade key) (fun _ => False) ∧
      (network.runKey cascade key).agenda = network.agenda := by
  unfold runKey
  cases live : network.tree? key.tree with
  | none => exact ⟨marks_of_trees rfl, rfl⟩
  | some tree =>
    cases role : tree.role with
    | data entity =>
      simp only [Option.map_some, role]
      split
      · unfold aggregateSymbol
        simp only [live]
        refine ⟨(network.marks_updateCell _ False fun _ => ?_).congr fun _ => by simp, rfl⟩
        exact ⟨rfl, rfl, rfl, rfl, rfl, by simp⟩
      · exact ⟨marks_of_trees rfl, rfl⟩
    | command compiled =>
      have found : network.command? key.tree = some compiled :=
        command?_eq_some_iff.2 ⟨tree, live, role⟩
      simp only [Option.map_some, role]
      rw [if_neg (ordinary.resolve_right (by simp [found]))]
      exact ⟨marks_of_trees rfl, rfl⟩
    | variableTable table =>
      simp only [Option.map_some, role]
      exact ⟨marks_of_trees rfl, trivial⟩
    | plain =>
      simp only [Option.map_some, role]
      exact ⟨marks_of_trees rfl, trivial⟩

theorem Sound.advances_runKey {cascade : Cascade} {network : Network} (sound : network.Sound)
    (orderly : Orderly cascade) (key : Address) :
    network.Advances (network.runKey cascade key) := by
  unfold runKey
  split
  · split
    · exact sound.advances_tame (sound.tame_aggregateSymbol key.tree)
    · exact sound.advances_refl
  · split
    · exact sound.advances_execute orderly key.tree
    · exact sound.advances_refl
  · exact sound.advances_refl

theorem Sound.advances_runAndPropagate {cascade : Cascade} {network : Network}
    (sound : network.Sound) (orderly : Orderly cascade) (key : Address)
    (active : ∀ cell, network.cell? key = some cell → cell.active = true)
    (stays : key.path ≠ Path.root ∨ (network.cell? key).isSome) :
    network.Advances (network.runAndPropagate cascade key) := by
  have ran := sound.advances_runKey orderly key
  refine ran.trans (ran.sound.advances_propagateKey fun cell found => ?_)
  by_cases root : key.path = Path.root
  · obtain ⟨before, present⟩ := Option.isSome_iff_exists.1 (stays.resolve_left (· root))
    obtain ⟨after, foundAfter, grows⟩ := ran.evolves.kept key before present (Or.inl root)
    obtain rfl : cell = after := Option.some.inj (found.symm.trans foundAfter)
    exact grows.active (active before present)
  · obtain ⟨before, present, marked⟩ := (marks_runKey cascade (Or.inl root)).1.origin found
    exact marked.active.trans (active before present)

theorem marks_runAndPropagate (cascade : Cascade) {network : Network} {key : Address}
    (ordinary : key.path ≠ Path.root ∨ network.command? key.tree = none) :
    network.Marks (network.runAndPropagate cascade key) fun query => query = key :=
  ((marks_runKey cascade ordinary).1.trans (marks_propagateKey _ key)).congr fun _ => by simp

/-- The keys below that are ready are completed first, and they are ordinary. -/
theorem marks_foldl_runAndPropagate (cascade : Cascade) (handle : Handle) (paths : List Path)
    (network : Network) (lower : ∀ path ∈ paths, path ≠ Path.root) :
    network.Marks (paths.foldl
      (fun network path => network.runAndPropagate cascade ⟨handle, path⟩) network)
      fun query => query.tree = handle ∧ query.path ∈ paths := by
  induction paths generalizing network with
  | nil => exact (marks_of_trees rfl).congr fun _ => by simp
  | cons first rest ih =>
    have head : network.Marks (network.runAndPropagate cascade ⟨handle, first⟩) _ :=
      marks_runAndPropagate cascade (Or.inl (lower first (List.mem_cons_self ..)))
    have tail := ih (network.runAndPropagate cascade ⟨handle, first⟩) fun path member =>
      lower path (List.mem_cons_of_mem first member)
    refine (head.trans tail).congr
      fun query => ?_
    rw [List.mem_cons, and_or_left]
    refine or_congr_left ⟨fun same => by simp [same], ?_⟩
    rintro ⟨rfl, rfl⟩
    rfl

theorem Sound.advances_foldl_runAndPropagate {cascade : Cascade} (orderly : Orderly cascade)
    (handle : Handle) (paths : List Path) {network : Network} (sound : network.Sound)
    (lower : ∀ path ∈ paths, path ≠ Path.root)
    (active : ∀ path ∈ paths, ∀ cell, network.cell? ⟨handle, path⟩ = some cell →
      cell.active = true) :
    network.Advances (paths.foldl
      (fun network path => network.runAndPropagate cascade ⟨handle, path⟩) network) := by
  induction paths generalizing network with
  | nil => exact sound.advances_refl
  | cons first rest ih =>
    have below := lower first (List.mem_cons_self ..)
    have head := sound.advances_runAndPropagate orderly _ (active first (List.mem_cons_self ..))
      (Or.inl below)
    refine head.trans (ih head.sound
      (fun path member => lower path (List.mem_cons_of_mem first member)) ?_)
    intro path member cell found
    have marks : network.Marks (network.runAndPropagate cascade ⟨handle, first⟩) _ :=
      marks_runAndPropagate cascade (Or.inl below)
    obtain ⟨before, present, marked⟩ := marks.origin found
    exact marked.active.trans (active path (List.mem_cons_of_mem first member) before present)

/-- What is completed together with a key stands below it. -/
theorem ne_root_of_mem_ready {tree : Tree} {top path : Path}
    (ready : path ∈ (tree.following top).ready) : path ≠ Path.root := by
  rintro rfl
  obtain ⟨-, cell, -, within, different, -⟩ := Tree.mem_ready_following ready
  exact different (Path.isWithin_root_iff.1 within).symm

theorem isPropagated_runAndPropagate {cascade : Cascade} {network : Network}
    (sound : network.Sound) (orderly : Orderly cascade) {key : Address}
    (present : (network.cell? key).isSome) :
    (network.runAndPropagate cascade key).isPropagated key = true := by
  obtain ⟨before, found⟩ := Option.isSome_iff_exists.1 present
  have stays : ∃ after, (network.runKey cascade key).cell? key = some after := by
    by_cases root : key.path = Path.root
    · obtain ⟨after, foundAfter, -⟩ :=
        (sound.advances_runKey orderly key).evolves.kept key before found (Or.inl root)
      exact ⟨after, foundAfter⟩
    · obtain ⟨after, foundAfter, -⟩ := (marks_runKey cascade (Or.inl root)).1.found found
      exact ⟨after, foundAfter⟩
  obtain ⟨after, foundAfter⟩ := stays
  exact isPropagated_iff.2 ⟨{ after with propagated := true },
    by simp [runAndPropagate, foundAfter], rfl⟩

/-- The network when what is ready below a key has been completed. -/
def completeBelow (network : Network) (cascade : Cascade) (key : Address) (tree : Tree) : Network :=
  (tree.following key.path).ready.foldl
    (fun network path => network.runAndPropagate cascade ⟨key.tree, path⟩) network

theorem complete_eq (cascade : Cascade) {network : Network} {key : Address} {tree : Tree}
    (live : network.tree? key.tree = some tree) :
    network.complete cascade key =
      ((network.completeBelow cascade key tree).runAndPropagate cascade key).updateAgenda
        fun agenda => agenda.pushChecks
          ((tree.following key.path).deferred.map fun path => ⟨key.tree, path⟩) := by
  unfold complete completeBelow
  simp only [live]

theorem marks_completeBelow (cascade : Cascade) (network : Network) (key : Address) (tree : Tree) :
    network.Marks (network.completeBelow cascade key tree) fun query =>
      query.tree = key.tree ∧ query.path ∈ (tree.following key.path).ready :=
  marks_foldl_runAndPropagate cascade key.tree _ network fun _ => ne_root_of_mem_ready

/-- What is ready below a key that is ready is active like the key itself. -/
theorem Sound.advances_completeBelow {cascade : Cascade} {network : Network}
    (sound : network.Sound) (orderly : Orderly cascade) {key : Address} {tree : Tree}
    (ready : network.standing key = .ready) (live : network.tree? key.tree = some tree) :
    network.Advances (network.completeBelow cascade key tree) ∧
      ∃ cell, (network.completeBelow cascade key tree).cell? key = some cell ∧
        cell.active = true := by
  obtain ⟨other, cell, able, free⟩ := standing_eq_ready_iff.1 ready
  obtain rfl : tree = other := Option.some.inj (live.symm.trans able.live)
  refine ⟨sound.advances_foldl_runAndPropagate orderly key.tree _
    (fun _ => ne_root_of_mem_ready) fun path member below found => ?_, ?_⟩
  · obtain ⟨unknown, -, -, within, -⟩ := Tree.mem_ready_following member
    have plain : tree.role.isVariables = false := by
      refine (free.resolve_left fun known => ?_).1
      simp [able.found, known] at unknown
    obtain ⟨other, liveOther, present⟩ := cell?_eq_some_iff.1 found
    obtain rfl : tree = other := Option.some.inj (live.symm.trans liveOther)
    exact (sound.trees _ tree live).downward plain key.path cell path below able.found able.active
      within present
  · obtain ⟨after, found, marked⟩ :=
      (marks_completeBelow cascade network key tree).found able.cell?_eq
    exact ⟨after, found, marked.active.trans able.active⟩

/-- Completing a key that is ready keeps the network in order, and the key has propagated. -/
theorem Sound.advances_complete {cascade : Cascade} {network : Network} (sound : network.Sound)
    (orderly : Orderly cascade) {key : Address} (ready : network.standing key = .ready) :
    network.Advances (network.complete cascade key) ∧
      (network.complete cascade key).isPropagated key = true := by
  obtain ⟨tree, _, able, -⟩ := standing_eq_ready_iff.1 ready
  obtain ⟨below, cell, found, active⟩ := sound.advances_completeBelow orderly ready able.live
  have finished := below.sound.advances_runAndPropagate orderly key
    (fun other foundOther => by
      obtain rfl : cell = other := Option.some.inj (found.symm.trans foundOther)
      exact active)
    (Or.inr (by simp [found]))
  rw [complete_eq cascade able.live]
  refine ⟨(below.trans finished).trans
    (finished.sound.advances_tame (finished.sound.tame_pushChecks _)), ?_⟩
  exact isPropagated_runAndPropagate below.sound orderly (by simp [found])

end Network

end ConceptLaws.Propagation
