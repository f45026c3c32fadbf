import ConceptLaws.Proofs.Propagation.Linkage

/-! What clearing leaves.
Below a cleared key nothing holds a value. A key that waits, or that others wait on, stays, and with
it all keys above it; every other key below goes. The keys that can go are erased longest path
first, so a key meets its turn when all that goes below it is gone. -/

namespace ConceptLaws.Propagation

/-! ## Trees -/

namespace Tree

variable {tree : Tree} {top query : Path}

/-- A key that takes part in an edge stands at or below the path. -/
def Anchored (tree : Tree) (top : Path) : Prop :=
  ∃ path cell, tree.cell? path = some cell ∧ path.isWithin top = true ∧ cell.isUnlinked = false

theorem anchored_iff_any : tree.Anchored top ↔
    (tree.subtree top).any (fun entry => !entry.2.isUnlinked) = true := by
  simp only [Anchored, List.any_eq_true, Prod.exists, mem_subtree, Bool.not_eq_true', and_assoc]

theorem cell?_foldl_update_of_nodup (change : Cell → Cell) {paths : List Path}
    (distinct : paths.Nodup) (tree : Tree) (query : Path) :
    (paths.foldl (fun tree path => tree.update path change) tree).cell? query =
      (tree.cell? query).map fun cell => if query ∈ paths then change cell else cell := by
  induction paths generalizing tree with
  | nil => simp
  | cons first rest ih =>
    obtain ⟨new, distinct⟩ := List.nodup_cons.1 distinct
    rw [List.foldl_cons, ih distinct, cell?_update]
    by_cases same : query = first
    · subst same
      cases tree.cell? query <;> simp [new]
    · simp [same]

/-- Erases a key that has no keys below it. -/
def eraseLeaf (tree : Tree) (path : Path) : Tree :=
  if (tree.descendants path).isEmpty then tree.erase path else tree

/-- A key goes with a list: it is listed, and so is every key below it. -/
def Goes (tree : Tree) (paths : List Path) (query : Path) : Prop :=
  query ∈ paths ∧
    ∀ path cell, tree.cell? path = some cell → path.isWithin query = true → path ∈ paths

/-- A key without keys below it is erased; what goes afterwards are the other keys that went. -/
theorem goes_erase {first : Path} {rest : List Path} (leaf : tree.descendants first = [])
    (proper : first ≠ Path.root) :
    tree.Goes (first :: rest) query ↔ query = first ∨ (tree.erase first).Goes rest query := by
  have kept {path : Path} {cell : Cell} : (tree.erase first).cell? path = some cell ↔
      path ≠ first ∧ tree.cell? path = some cell := by
    rw [cell?_erase]
    by_cases same : path = first <;> simp [same, proper]
  constructor
  · rintro ⟨listed, below⟩
    refine (List.mem_cons.1 listed).imp_right fun later => ⟨later, fun path cell found within => ?_⟩
    obtain ⟨different, present⟩ := kept.1 found
    exact (List.mem_cons.1 (below path cell present within)).resolve_left different
  · rintro (rfl | ⟨later, below⟩)
    · refine ⟨List.mem_cons_self, fun path cell found within => ?_⟩
      by_cases same : path = query
      · exact same ▸ List.mem_cons_self
      · have lower : (path, cell) ∈ tree.descendants query :=
          mem_descendants.2 ⟨found, within, same⟩
        simp [leaf] at lower
    · refine ⟨List.mem_cons_of_mem first later, fun path cell found within => ?_⟩
      by_cases same : path = first
      · exact same ▸ List.mem_cons_self
      · exact List.mem_cons_of_mem first (below path cell (kept.2 ⟨same, found⟩) within)

/-- A key with a key below it that is not listed takes no part in what goes. -/
theorem goes_skip {first : Path} {rest : List Path} {lower : Path} {cell : Cell}
    (found : tree.cell? lower = some cell) (within : lower.isWithin first = true)
    (stays : lower ∉ first :: rest) :
    tree.Goes (first :: rest) query ↔ tree.Goes rest query := by
  constructor
  · rintro ⟨listed, below⟩
    have apart : ¬first.isWithin query = true := fun upper =>
      stays (below lower cell found (Path.isWithin_trans within upper))
    have later {path : Path} (member : path ∈ first :: rest) (inside : path.isWithin query = true) :
        path ∈ rest :=
      (List.mem_cons.1 member).resolve_left fun same => apart (same ▸ inside)
    exact ⟨later listed (Path.isWithin_refl query), fun path other present inside =>
      later (below path other present inside) inside⟩
  · rintro ⟨later, below⟩
    exact ⟨List.mem_cons_of_mem first later, fun path other present inside =>
      List.mem_cons_of_mem first (below path other present inside)⟩

open Classical in
/-- The keys of a list are erased in its order if they are leaves then. With longer paths first,
what is erased are the keys that have no key below them but those of the list. -/
theorem cell?_foldl_eraseLeaf {paths : List Path}
    (deeper : paths.Pairwise fun earlier later => later.length ≤ earlier.length)
    (proper : Path.root ∉ paths) (tree : Tree) (query : Path) :
    (paths.foldl eraseLeaf tree).cell? query =
      if tree.Goes paths query then none else tree.cell? query := by
  induction paths generalizing tree with
  | nil => simp [Goes]
  | cons first rest ih =>
    obtain ⟨shorter, deeper⟩ := List.pairwise_cons.1 deeper
    obtain ⟨top, proper⟩ := not_or.1 (mt List.mem_cons.2 proper)
    rw [List.foldl_cons, ih deeper proper]
    unfold eraseLeaf
    cases leaf : tree.descendants first with
    | nil =>
      simp only [List.isEmpty_nil, ↓reduceIte, goes_erase leaf (Ne.symm top), cell?_erase]
      by_cases same : query = first <;> simp [same, Ne.symm top]
    | cons entry _ =>
      obtain ⟨lower, cell⟩ := entry
      have listed : (lower, cell) ∈ tree.descendants first := leaf ▸ List.mem_cons_self
      obtain ⟨found, within, different⟩ := mem_descendants.1 listed
      have longer : first.length < lower.length := by
        refine Nat.lt_of_le_of_ne (Path.isWithin_iff.1 within).length_le fun same => different ?_
        exact ((Path.isWithin_iff.1 within).eq_of_length same).symm
      have stays : lower ∉ first :: rest := by
        intro member
        rcases List.mem_cons.1 member with same | later
        · exact different same
        · have bounded := shorter lower later
          omega
      simp only [List.isEmpty_cons, Bool.false_eq_true, ↓reduceIte, goes_skip found within stays]

/-- The keys below a path that take part in no edge. -/
def unlinkedBelow (tree : Tree) (top : Path) : List Path :=
  ((tree.descendants top).filter fun entry => entry.2.isUnlinked).map Prod.fst

theorem mem_unlinkedBelow : query ∈ tree.unlinkedBelow top ↔
    ∃ cell, tree.cell? query = some cell ∧ query.isWithin top = true ∧ query ≠ top ∧
      cell.isUnlinked = true := by
  unfold unlinkedBelow
  rw [List.mem_map]
  constructor
  · rintro ⟨⟨path, cell⟩, member, rfl⟩
    obtain ⟨listed, unlinked⟩ := List.mem_filter.1 member
    obtain ⟨found, within, different⟩ := mem_descendants.1 listed
    exact ⟨cell, found, within, different, unlinked⟩
  · rintro ⟨cell, found, within, different, unlinked⟩
    exact ⟨(query, cell),
      List.mem_filter.2 ⟨mem_descendants.2 ⟨found, within, different⟩, unlinked⟩, rfl⟩

/-- A tree without the values at and below a path. -/
def emptied (tree : Tree) (top : Path) : Tree :=
  (top :: (tree.descendants top).map Prod.fst).foldl
    (fun tree path => tree.update path fun cell => cell.replace none) tree

theorem cell?_emptied (tree : Tree) (top query : Path) :
    (tree.emptied top).cell? query = (tree.cell? query).map fun cell =>
      if query.isWithin top then cell.replace none else cell := by
  have ordered : Ordered (tree.descendants top) :=
    (tree.ordered_subtree top).sublist (List.dropWhile_sublist _)
  have distinct : (top :: (tree.descendants top).map Prod.fst).Nodup := by
    refine List.nodup_cons.2 ⟨fun member => ?_,
      List.Pairwise.map _ (fun left right before same => ?_) ordered⟩
    · obtain ⟨⟨path, cell⟩, listed, rfl⟩ := List.mem_map.1 member
      exact (mem_descendants.1 listed).2.2 rfl
    · simp [same] at before
  unfold emptied
  rw [cell?_foldl_update_of_nodup _ distinct]
  cases found : tree.cell? query with
  | none => rfl
  | some cell =>
    have listed : query ∈ top :: (tree.descendants top).map Prod.fst ↔
        query.isWithin top = true := by
      simp only [List.mem_cons, List.mem_map, Prod.exists, mem_descendants, exists_and_right,
        exists_eq_right, found, Option.some.injEq, exists_eq', true_and]
      by_cases same : query = top
      · simp [same]
      · simp [same]
    simp only [Option.map_some, listed]

/-- Longer paths come first. -/
def longestFirst (paths : List Path) : List Path :=
  paths.mergeSort fun left right => left.length ≥ right.length

@[simp] theorem mem_longestFirst {paths : List Path} : query ∈ longestFirst paths ↔ query ∈ paths :=
  List.mem_mergeSort

theorem pairwise_longestFirst (paths : List Path) :
    (longestFirst paths).Pairwise fun earlier later => later.length ≤ earlier.length := by
  refine (List.pairwise_mergeSort ?_ ?_ _).imp of_decide_eq_true
  · intro first second third earlier later
    simp only [decide_eq_true_eq] at *
    omega
  · intro left right
    simp only [Bool.or_eq_true, decide_eq_true_eq]
    omega

/-- A tree after a path was cleared. -/
def cleared (tree : Tree) (top : Path) : Tree :=
  (longestFirst (tree.unlinkedBelow top)).foldl eraseLeaf (tree.emptied top)

/-- What goes are the keys below the path that no key with an edge stands at or below. -/
theorem goes_unlinkedBelow {cell : Cell} (found : tree.cell? query = some cell) :
    (tree.emptied top).Goes (tree.unlinkedBelow top) query ↔
      query.isWithin top = true ∧ query ≠ top ∧ ¬tree.Anchored query := by
  constructor
  · rintro ⟨listed, below⟩
    obtain ⟨-, -, within, different, -⟩ := mem_unlinkedBelow.1 listed
    refine ⟨within, different, ?_⟩
    rintro ⟨path, linked, present, inside, edged⟩
    have after : ((tree.emptied top).cell? path).isSome := by simp [cell?_emptied, present]
    obtain ⟨left, leftFound⟩ := Option.isSome_iff_exists.1 after
    obtain ⟨same, sameFound, -, -, unlinked⟩ :=
      mem_unlinkedBelow.1 (below path left leftFound inside)
    obtain rfl := Option.some.inj (present.symm.trans sameFound)
    simp [edged] at unlinked
  · rintro ⟨within, different, free⟩
    have unlinked {path : Path} {other : Cell} (present : tree.cell? path = some other)
        (inside : path.isWithin query = true) : other.isUnlinked = true := by
      rw [← Bool.not_eq_false]
      exact fun edged => free ⟨path, other, present, inside, edged⟩
    have goes {path : Path} {other : Cell} (present : tree.cell? path = some other)
        (inside : path.isWithin query = true) : path ∈ tree.unlinkedBelow top := by
      refine mem_unlinkedBelow.2 ⟨other, present, Path.isWithin_trans inside within, ?_,
        unlinked present inside⟩
      rintro rfl
      exact different (Path.isWithin_antisymm within inside)
    refine ⟨goes found (Path.isWithin_refl query), fun path left leftFound inside => ?_⟩
    rw [cell?_emptied, Option.map_eq_some_iff] at leftFound
    obtain ⟨other, present, -⟩ := leftFound
    exact goes present inside

open Classical in
theorem cell?_cleared (tree : Tree) (top query : Path) :
    (tree.cleared top).cell? query =
      if query.isWithin top = true ∧ query ≠ top ∧ ¬tree.Anchored query then none
      else (tree.cell? query).map fun cell =>
        if query.isWithin top then cell.replace none else cell := by
  have proper : Path.root ∉ longestFirst (tree.unlinkedBelow top) := by
    intro member
    obtain ⟨-, -, within, different, -⟩ := mem_unlinkedBelow.1 (mem_longestFirst.1 member)
    exact different (Path.isWithin_root_iff.1 within).symm
  have goes : (tree.emptied top).Goes (longestFirst (tree.unlinkedBelow top)) query ↔
      (tree.emptied top).Goes (tree.unlinkedBelow top) query := by
    simp only [Goes, mem_longestFirst]
  unfold cleared
  rw [cell?_foldl_eraseLeaf (pairwise_longestFirst _) proper, cell?_emptied]
  cases found : tree.cell? query with
  | none => simp
  | some cell => simp only [goes, goes_unlinkedBelow found]

end Tree

/-! ## Networks -/

namespace Network

variable {network : Network} {key : Address}

/-- A key waits on another, or another waits on it. -/
def Linked (network : Network) (key : Address) : Prop :=
  (∃ source, (network.edge? key source).isSome = true) ∨ ∃ waiter, waiter ∈ network.triggers key

/-- A linked key stands at or below a key. -/
def Anchored (network : Network) (key : Address) : Prop :=
  ∃ path, path.isWithin key.path = true ∧ network.Linked ⟨key.tree, path⟩

theorem linked_iff : network.Linked key ↔
    ∃ cell, network.cell? key = some cell ∧ cell.isUnlinked = false := by
  unfold Linked edge? triggers
  cases found : network.cell? key with
  | none => simp
  | some cell =>
    simp only [Option.bind_eq_bind, Option.bind_some, Option.map_some, Option.getD_some,
      Option.some.injEq, exists_eq_left', ← Bool.not_eq_true, Cell.isUnlinked_iff, not_and_or,
      not_forall, not_not, Option.isSome_iff_ne_none, ne_eq]

theorem anchored_iff {handle : Handle} {tree : Tree} (live : network.tree? handle = some tree)
    (top : Path) : network.Anchored ⟨handle, top⟩ ↔ tree.Anchored top := by
  simp only [Anchored, linked_iff, cell?_at live, Tree.Anchored]
  constructor
  · rintro ⟨path, within, cell, found, linked⟩
    exact ⟨path, cell, found, within, linked⟩
  · rintro ⟨path, cell, found, within, linked⟩
    exact ⟨path, within, cell, found, linked⟩

theorem clearKey_eq (rooted : network.Rooted) (key : Address) :
    network.clearKey key = network.updateTree key.tree fun tree => tree.cleared key.path := by
  unfold clearKey
  cases live : network.tree? key.tree with
  | none => exact (updateTree_self fun tree found => by simp [live] at found).symm
  | some tree =>
    dsimp only
    rw [Tree.drop_subtree (rooted _ tree live)]
    have values : ((tree.descendants key.path).map Prod.fst).foldl
        (fun network path => network.dropValue ⟨key.tree, path⟩) (network.dropValue key) =
          network.updateTree key.tree fun _ => tree.emptied key.path := by
      refine Eq.trans (network.updateTree_foldl key.tree
        (key.path :: (tree.descendants key.path).map Prod.fst) _).symm ?_
      exact updateTree_congr_of_live live rfl
    have leaves (paths : List Path) (before : Network) : paths.foldl (eraseLeaf key.tree) before =
        before.updateTree key.tree fun tree => paths.foldl Tree.eraseLeaf tree :=
      (before.updateTree_foldl_step Tree.eraseLeaf key.tree paths).symm
    rw [values, leaves, updateTree_updateTree]
    exact updateTree_congr_of_live live rfl

variable {path : Path}

theorem cell?_clearKey (rooted : network.Rooted) {tree : Tree}
    (live : network.tree? key.tree = some tree) (path : Path) :
    (network.clearKey key).cell? ⟨key.tree, path⟩ = (tree.cleared key.path).cell? path := by
  refine cell?_at ?_ path
  rw [clearKey_eq rooted, tree?_updateTree, if_pos rfl, live]
  rfl

/-- The key itself stays, and so does what a linked key stands at or below. -/
theorem cell?_clearKey_of_stays (rooted : network.Rooted) (within : path.isWithin key.path = true)
    (stays : path = key.path ∨ network.Anchored ⟨key.tree, path⟩) :
    (network.clearKey key).cell? ⟨key.tree, path⟩ =
      (network.cell? ⟨key.tree, path⟩).map fun cell => cell.replace none := by
  cases live : network.tree? key.tree with
  | none => simp [clearKey, cell?, live]
  | some tree =>
    rw [anchored_iff live] at stays
    have kept : ¬(path.isWithin key.path = true ∧ path ≠ key.path ∧ ¬tree.Anchored path) := by
      rintro ⟨-, different, free⟩
      exact stays.elim different free
    rw [cell?_clearKey rooted live, Tree.cell?_cleared, if_neg kept, cell?_at live]
    simp only [within, ↓reduceIte]

theorem cell?_clearKey_of_goes (rooted : network.Rooted) (within : path.isWithin key.path = true)
    (different : path ≠ key.path) (free : ¬network.Anchored ⟨key.tree, path⟩) :
    (network.clearKey key).cell? ⟨key.tree, path⟩ = none := by
  cases live : network.tree? key.tree with
  | none => simp [clearKey, cell?, live]
  | some tree =>
    rw [anchored_iff live] at free
    rw [cell?_clearKey rooted live, Tree.cell?_cleared, if_pos ⟨within, different, free⟩]

theorem cell?_clearKey_of_outside (rooted : network.Rooted) {query : Address}
    (outside : query.tree = key.tree → query.path.isWithin key.path = false) :
    (network.clearKey key).cell? query = network.cell? query := by
  obtain ⟨handle, path⟩ := query
  by_cases same : handle = key.tree
  · subst same
    cases live : network.tree? key.tree with
    | none => simp [clearKey, live]
    | some tree =>
      rw [cell?_clearKey rooted live, Tree.cell?_cleared, if_neg (by simp [outside rfl]),
        cell?_at live]
      simp [outside rfl]
  · unfold cell?
    rw [clearKey_eq rooted, tree?_updateTree, if_neg same]

/-- A key stays as it is but perhaps for its value, or else it goes and was not linked. -/
theorem clearKey_cases (rooted : network.Rooted) (key query : Address) :
    (network.clearKey key).cell? query = network.cell? query ∨
    (network.clearKey key).cell? query =
      (network.cell? query).map (fun cell => cell.replace none) ∨
    (network.clearKey key).cell? query = none ∧ ¬network.Linked query := by
  obtain ⟨handle, path⟩ := query
  by_cases inside : handle = key.tree ∧ path.isWithin key.path = true
  · obtain ⟨rfl, within⟩ := inside
    by_cases stays : path = key.path ∨ network.Anchored ⟨key.tree, path⟩
    · exact Or.inr (Or.inl (cell?_clearKey_of_stays rooted within stays))
    · obtain ⟨different, free⟩ := not_or.1 stays
      refine Or.inr (Or.inr ⟨cell?_clearKey_of_goes rooted within different free, fun linked => ?_⟩)
      exact free ⟨path, Path.isWithin_refl path, linked⟩
  · exact Or.inl (cell?_clearKey_of_outside rooted fun same =>
      Bool.eq_false_iff.2 fun within => inside ⟨same, within⟩)

theorem edge?_clearKey (rooted : network.Rooted) (key waiter source : Address) :
    (network.clearKey key).edge? waiter source = network.edge? waiter source := by
  rcases clearKey_cases rooted key waiter with same | emptied | ⟨gone, unlinked⟩
  · exact edge?_congr same
  · unfold edge?
    rw [emptied]
    cases network.cell? waiter <;> rfl
  · have free := not_or.1 unlinked
    unfold edge? at free ⊢
    rw [gone]
    exact (Option.not_isSome_iff_eq_none.1 (not_exists.1 free.1 source)).symm

theorem triggers_clearKey (rooted : network.Rooted) (key query : Address) :
    (network.clearKey key).triggers query = network.triggers query := by
  rcases clearKey_cases rooted key query with same | emptied | ⟨gone, unlinked⟩
  · exact triggers_congr same
  · unfold triggers
    rw [emptied]
    cases network.cell? query <;> rfl
  · have free := Std.ExtTreeSet.eq_empty_iff_forall_not_mem.2 (not_exists.1 (not_or.1 unlinked).2)
    rw [free]
    unfold triggers
    rw [gone]
    rfl

/-- What a key becomes that is cleared: nothing at or below it holds a value, of what is below it
just the keys stay that a linked key stands at or below, and elsewhere nothing changes. -/
structure Clearing (network : Network) (key : Address) (later : Network) : Prop where
  valueless : ∀ path, path.isWithin key.path = true → later.value? ⟨key.tree, path⟩ = none
  /-- A linked key stays as it is but for its value, and so do all keys above it. -/
  kept : ∀ path, path.isWithin key.path = true → network.Linked ⟨key.tree, path⟩ →
    (∃ cell, network.cell? ⟨key.tree, path⟩ = some cell ∧
      later.cell? ⟨key.tree, path⟩ = some (cell.replace none)) ∧
    ∀ above, path.isWithin above = true → (later.cell? ⟨key.tree, above⟩).isSome = true
  left : ∀ path, path.isBelow key.path = true →
    ((later.cell? ⟨key.tree, path⟩).isSome = true ↔ network.Anchored ⟨key.tree, path⟩)
  edges : ∀ waiter source, later.edge? waiter source = network.edge? waiter source
  triggers : ∀ query, later.triggers query = network.triggers query
  rooted : later.Rooted
  outside : ∀ query : Address, (query.tree = key.tree → query.path.isWithin key.path = false) →
    later.cell? query = network.cell? query

theorem kept_clearKey (rooted : network.Rooted) (within : path.isWithin key.path = true)
    (linked : network.Linked ⟨key.tree, path⟩) :
    ∃ cell, network.cell? ⟨key.tree, path⟩ = some cell ∧
      (network.clearKey key).cell? ⟨key.tree, path⟩ = some (cell.replace none) := by
  obtain ⟨cell, found, -⟩ := linked_iff.1 linked
  refine ⟨cell, found, ?_⟩
  rw [cell?_clearKey_of_stays rooted within (Or.inr ⟨path, Path.isWithin_refl path, linked⟩), found]
  rfl

/-- Whatever was done to an empty network, also in the middle of a cascade: clearing a key takes
away all values and all keys that no edge needs, and nothing else. -/
theorem clearing_clearKey {maxSteps : Nat} (reached : (empty maxSteps).Changes network)
    (key : Address) : network.Clearing key (network.clearKey key) := by
  have rooted : network.Rooted := ((mutual_empty maxSteps).changes reached).rooted
  have after : (network.clearKey key).Rooted :=
    ((mutual_empty maxSteps).changes
      (reached.trans (Motions.changes (network.motions_clearKey key)))).rooted
  refine ⟨fun path within => value?_clearKey rooted rfl within, fun path within linked => ?_,
    fun path below => ?_, edge?_clearKey rooted key, triggers_clearKey rooted key, after,
    fun query outside => cell?_clearKey_of_outside rooted outside⟩
  · obtain ⟨cell, found, left⟩ := kept_clearKey rooted within linked
    exact ⟨⟨cell, found, left⟩, fun above upper => after.isSome_cell? left upper⟩
  · rw [Path.isBelow, Bool.and_eq_true, bne_iff_ne] at below
    constructor
    · intro there
      by_contra free
      rw [cell?_clearKey_of_goes rooted below.1 below.2 free] at there
      cases there
    · rintro ⟨lower, inside, linked⟩
      obtain ⟨cell, -, left⟩ :=
        kept_clearKey rooted (Path.isWithin_trans inside below.1) linked
      exact after.isSome_cell? left inside

/-! ## A key of each kind -/

def clearedKey : Address := ⟨⟨0, 0⟩, ["list"]⟩

/-- Below a key another one waits, and two keys hold values: one above the key that waits, and one
beside it. -/
def clearable : Network :=
  let waiting := (((empty 8).create .plain).2.waitOn
    ⟨⟨0, 0⟩, ["list", "a", "b"]⟩ ⟨⟨0, 0⟩, ["source"]⟩ none).2
  (waiting.seed ⟨0, 0⟩ ["list", "a"] (.text "above") false).seed ⟨0, 0⟩ ["list", "c", "d"]
    (.text "beside") false

theorem changes_clearable : (empty 8).Changes clearable := by
  have created : (empty 8).Changes ((empty 8).create .plain).2 := Change.once (.created .plain)
  refine (created.trans (changes_waitOn _ _ _ _)).trans
    ((changes_ensureWith _ _ _ ?_ ?_).trans (changes_ensureWith _ _ _ ?_ ?_)) <;> exact fun _ => rfl

/-- The value above the key that waits goes, and the key stays; the key beside it goes. -/
theorem clearing_clearable :
    clearable.value? ⟨⟨0, 0⟩, ["list", "a"]⟩ = some (.text "above") ∧
    (clearable.cell? ⟨⟨0, 0⟩, ["list", "c"]⟩).isSome = true ∧
    (clearable.clearKey clearedKey).value? ⟨⟨0, 0⟩, ["list", "a"]⟩ = none ∧
    ((clearable.clearKey clearedKey).cell? ⟨⟨0, 0⟩, ["list", "a"]⟩).isSome = true ∧
    (clearable.clearKey clearedKey).cell? ⟨⟨0, 0⟩, ["list", "c"]⟩ = none := by
  have clearing := clearing_clearKey changes_clearable clearedKey
  have linked : clearable.Linked ⟨⟨0, 0⟩, ["list", "a", "b"]⟩ :=
    Or.inl ⟨⟨⟨0, 0⟩, ["source"]⟩, by decide +kernel⟩
  have free : ¬clearable.Anchored ⟨⟨0, 0⟩, ["list", "c"]⟩ := by
    obtain ⟨tree, live⟩ : ∃ tree, clearable.tree? ⟨0, 0⟩ = some tree :=
      Option.isSome_iff_exists.1 (by decide +kernel)
    have unlinked : (clearable.tree? ⟨0, 0⟩).any (fun tree =>
        (tree.subtree ["list", "c"]).any fun entry => !entry.2.isUnlinked) = false := by
      decide +kernel
    rw [live] at unlinked
    rw [anchored_iff live, Tree.anchored_iff_any]
    exact Bool.eq_false_iff.1 unlinked
  refine ⟨rfl, by decide +kernel, clearing.valueless ["list", "a"] (by decide +kernel),
    (clearing.kept ["list", "a", "b"] (by decide +kernel) linked).2 ["list", "a"]
      (by decide +kernel), ?_⟩
  rw [← Option.not_isSome_iff_eq_none]
  exact fun there => free ((clearing.left ["list", "c"] (by decide +kernel)).1 there)

end Network

end ConceptLaws.Propagation
