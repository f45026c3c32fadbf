import ConceptLaws.Proofs.Propagation.Tree

/-! Sections of trees.
The keys at and below a path are a filter of the key list, because they stand together in its order.
The scan for open edges leaves out what a known key below the top shields; the scan of what goes with
a key never takes a blocked one. -/

namespace ConceptLaws.Propagation.Tree

/-- The keys of a list stand in the order of their paths. -/
abbrev Ordered (cells : List (Path × Cell)) : Prop :=
  cells.Pairwise fun left right => compare left.1 right.1 = .lt

theorem ordered_keys (tree : Tree) : Ordered tree.keys.toList :=
  Std.ExtTreeMap.ordered_keys_toList

theorem mem_keys {tree : Tree} {path : Path} {cell : Cell} :
    (path, cell) ∈ tree.keys.toList ↔ tree.cell? path = some cell :=
  Std.ExtTreeMap.mem_toList_iff_getElem?_eq_some

theorem compare_ne_lt_of_lt {left right : Path} (before : compare left right = .lt) :
    compare right left ≠ .lt := by
  intro after
  rw [Std.OrientedOrd.eq_swap, before] at after
  simp at after

/-- Past the start of a section, its keys are those that lie in it. -/
theorem takeWhile_isWithin {cells : List (Path × Cell)} (ordered : Ordered cells) {top : Path}
    (after : ∀ entry ∈ cells, compare entry.1 top ≠ .lt) :
    (cells.takeWhile fun entry => entry.1.isWithin top) =
      cells.filter fun entry => entry.1.isWithin top := by
  induction cells with
  | nil => rfl
  | cons first rest ih =>
    obtain ⟨before, ordered⟩ := List.pairwise_cons.1 ordered
    by_cases within : first.1.isWithin top = true
    · rw [List.takeWhile_cons_of_pos (by simpa using within),
        List.filter_cons_of_pos (by simpa using within),
        ih ordered fun entry member => after entry (List.mem_cons_of_mem first member)]
    · rw [List.takeWhile_cons_of_neg (by simpa using within),
        List.filter_cons_of_neg (by simpa using within), eq_comm, List.filter_eq_nil_iff]
      intro entry member lower
      exact within (Path.isWithin_of_between lower (after first (List.mem_cons_self ..))
        (before entry member))

theorem section_eq_filter {cells : List (Path × Cell)} (ordered : Ordered cells) (top : Path) :
    ((cells.dropWhile fun entry => compare entry.1 top == .lt).takeWhile fun entry =>
      entry.1.isWithin top) = cells.filter fun entry => entry.1.isWithin top := by
  induction cells with
  | nil => rfl
  | cons first rest ih =>
    by_cases start : compare first.1 top = .lt
    · have outside : ¬first.1.isWithin top = true :=
        fun within => Path.compare_ne_lt_of_isWithin within start
      rw [List.dropWhile_cons_of_pos (by simpa using start),
        List.filter_cons_of_neg (by simpa using outside), ih (List.pairwise_cons.1 ordered).2]
    · rw [List.dropWhile_cons_of_neg (by simpa using start)]
      apply takeWhile_isWithin ordered
      intro entry member
      rcases List.mem_cons.1 member with rfl | later
      · exact start
      · intro early
        exact start (Std.TransCmp.lt_trans ((List.pairwise_cons.1 ordered).1 entry later) early)

/-- The keys at and below a path, in order. -/
theorem subtree_eq_filter (tree : Tree) (top : Path) :
    tree.subtree top = tree.keys.toList.filter fun entry => entry.1.isWithin top :=
  section_eq_filter tree.ordered_keys top

theorem ordered_subtree (tree : Tree) (top : Path) : Ordered (tree.subtree top) := by
  rw [subtree_eq_filter]
  exact tree.ordered_keys.filter _

@[simp] theorem mem_subtree {tree : Tree} {top path : Path} {cell : Cell} :
    (path, cell) ∈ tree.subtree top ↔ tree.cell? path = some cell ∧ path.isWithin top = true := by
  rw [subtree_eq_filter, List.mem_filter, mem_keys]

theorem dropWhile_top {cells : List (Path × Cell)} (ordered : Ordered cells) {top : Path}
    (after : ∀ entry ∈ cells, entry.1.isWithin top = true) :
    (cells.dropWhile fun entry => entry.1 == top) = cells.filter fun entry => entry.1 != top := by
  cases cells with
  | nil => rfl
  | cons first rest =>
    obtain ⟨before, -⟩ := List.pairwise_cons.1 ordered
    have others : ∀ entry ∈ rest, (entry.1 != top) = true := by
      intro entry member
      rw [bne_iff_ne]
      intro same
      exact Path.compare_ne_lt_of_isWithin (after first (List.mem_cons_self ..))
        (same ▸ before entry member)
    have kept : (rest.filter fun entry => entry.1 != top) = rest := List.filter_eq_self.2 others
    by_cases same : first.1 = top
    · rw [List.dropWhile_cons_of_pos (by simpa using same),
        List.filter_cons_of_neg (by simpa using same), kept]
      cases rest with
      | nil => rfl
      | cons second later =>
        have different := others second (List.mem_cons_self ..)
        rw [List.dropWhile_cons_of_neg]
        simpa using different
    · rw [List.dropWhile_cons_of_neg (by simpa using same),
        List.filter_cons_of_pos (by simpa using same), kept]

@[simp] theorem mem_descendants {tree : Tree} {top path : Path} {cell : Cell} :
    (path, cell) ∈ tree.descendants top ↔
      tree.cell? path = some cell ∧ path.isWithin top = true ∧ path ≠ top := by
  unfold descendants
  rw [dropWhile_top (tree.ordered_subtree top) fun entry member => (mem_subtree.1 member).2,
    List.mem_filter, mem_subtree, bne_iff_ne, and_assoc]

/-! ## Open edges -/

/-- No known key strictly below the top stands at or above the path. -/
def Exposed (tree : Tree) (top path : Path) : Prop :=
  ∀ above cell, tree.cell? above = some cell → cell.known = true → above.isWithin top = true →
    above ≠ top → path.isWithin above = false

/-- What the scan of a list has not been told to skip. -/
def Visible (top : Path) (skipped : Option Path) (cells : List (Path × Cell)) (path : Path) :
    Prop :=
  skips skipped path = false ∧
    ∀ entry ∈ cells, entry.2.known = true → entry.1 ≠ top → path.isWithin entry.1 = false

instance (top : Path) (skipped : Option Path) (cells : List (Path × Cell)) :
    DecidablePred (Visible top skipped cells) := fun _ => inferInstanceAs (Decidable (_ ∧ _))

/-- What is skipped stands before the rest of the list. -/
abbrev Behind (skipped : Option Path) (cells : List (Path × Cell)) : Prop :=
  ∀ top ∈ skipped, ∀ entry ∈ cells, compare top entry.1 = .lt

theorem skips_later {skipped : Option Path} {first later : Path}
    (behind : ∀ top ∈ skipped, compare top first = .lt) (before : compare first later = .lt)
    (seen : skips skipped first = false) : skips skipped later = false := by
  cases skipped with
  | none => rfl
  | some top =>
    cases lower : skips (some top) later with
    | false => rfl
    | true =>
      have within := Path.isWithin_of_between lower
        (compare_ne_lt_of_lt (behind top rfl)) before
      simp [skips, within] at seen

/-- One step of the scan: behind the first key, what is visible does not change. -/
theorem visible_cons {top : Path} {skipped : Option Path} {first : Path × Cell}
    {rest : List (Path × Cell)} (ordered : Ordered (first :: rest))
    (behind : Behind skipped (first :: rest))
    {entry : Path × Cell} (member : entry ∈ rest) :
    Visible top skipped (first :: rest) entry.1 ↔
      Visible top (if skips skipped first.1 then skipped
        else if first.1 != top && first.2.known then some first.1 else none) rest entry.1 := by
  obtain ⟨before, -⟩ := List.pairwise_cons.1 ordered
  unfold Visible
  rw [List.forall_mem_cons]
  by_cases hidden : skips skipped first.1 = true
  · simp only [hidden, ↓reduceIte]
    constructor
    · rintro ⟨seen, -, others⟩
      exact ⟨seen, others⟩
    · rintro ⟨seen, others⟩
      refine ⟨seen, fun _ _ => ?_, others⟩
      cases within : entry.1.isWithin first.1 with
      | false => rfl
      | true =>
        cases skipped with
        | none => simp [skips] at hidden
        | some shield => simp [skips, Path.isWithin_trans within hidden] at seen
  · have later : skips skipped entry.1 = false :=
      skips_later (fun shield same => behind shield same first (List.mem_cons_self ..))
        (before entry member) (by simpa using hidden)
    by_cases shield : (first.1 != top && first.2.known) = true
    · simp only [hidden, shield, Bool.false_eq_true, ↓reduceIte, later, true_and]
      simp only [Bool.and_eq_true, bne_iff_ne, ne_eq] at shield
      simp [shield.1, shield.2, skips]
    · have noShield : ¬(first.2.known = true ∧ first.1 ≠ top) := by
        rintro ⟨known, different⟩
        simp [known, different] at shield
      simp only [hidden, shield, Bool.false_eq_true, ↓reduceIte, later, true_and]
      constructor
      · rintro ⟨-, others⟩
        exact ⟨rfl, others⟩
      · rintro ⟨-, others⟩
        exact ⟨fun known different => absurd ⟨known, different⟩ noShield, others⟩

theorem visible_self {top : Path} {skipped : Option Path} {first : Path × Cell}
    {rest : List (Path × Cell)} (ordered : Ordered (first :: rest)) :
    Visible top skipped (first :: rest) first.1 ↔
      skips skipped first.1 = false ∧ (first.1 != top && first.2.known) = false := by
  obtain ⟨before, -⟩ := List.pairwise_cons.1 ordered
  unfold Visible
  rw [List.forall_mem_cons]
  constructor
  · rintro ⟨seen, own, -⟩
    refine ⟨seen, ?_⟩
    cases known : first.2.known with
    | false => simp
    | true =>
      by_cases same : first.1 = top
      · simp [same]
      · simpa using own known same
  · rintro ⟨seen, own⟩
    refine ⟨seen, fun known different => ?_, fun entry member _ _ => ?_⟩
    · simp [known, different] at own
    · cases within : first.1.isWithin entry.1 with
      | false => rfl
      | true => exact absurd (before entry member) (Path.compare_ne_lt_of_isWithin within)

/-- The path to skip after the first key of a list. -/
def skippedAfter (top : Path) (skipped : Option Path) (first : Path × Cell) : Option Path :=
  if skips skipped first.1 then skipped
  else if first.1 != top && first.2.known then some first.1 else none

theorem behind_skippedAfter (top : Path) {skipped : Option Path} {first : Path × Cell}
    {rest : List (Path × Cell)} (ordered : Ordered (first :: rest))
    (behind : Behind skipped (first :: rest)) : Behind (skippedAfter top skipped first) rest := by
  intro shield chosen entry member
  unfold skippedAfter at chosen
  split at chosen
  · exact behind shield chosen entry (List.mem_cons_of_mem first member)
  · split at chosen
    · obtain rfl := Option.some.inj chosen
      exact (List.pairwise_cons.1 ordered).1 entry member
    · simp at chosen

theorem pendingOf_cons (top : Path) (skipped : Option Path) (first : Path × Cell)
    (rest : List (Path × Cell)) :
    pendingOf top skipped (first :: rest) =
      if skips skipped first.1 then pendingOf top skipped rest
      else if first.1 != top && first.2.known then pendingOf top (some first.1) rest
      else if first.2.blocked then none
      else (pendingOf top none rest).map
        ((first.2.pending.map fun source => (first.1, source)) ++ ·) := rfl

/-- The open edges of keys, or none if one of them is blocked. -/
def openEdges (cells : List (Path × Cell)) : Option (List (Path × Address)) :=
  if cells.any fun entry => entry.2.blocked then none
  else some (cells.flatMap fun entry => entry.2.pending.map fun source => (entry.1, source))

theorem openEdges_cons (first : Path × Cell) (rest : List (Path × Cell)) :
    openEdges (first :: rest) = if first.2.blocked then none
      else (openEdges rest).map ((first.2.pending.map fun source => (first.1, source)) ++ ·) := by
  unfold openEdges
  by_cases blocked : first.2.blocked = true
  · simp [blocked]
  · by_cases others : (rest.any fun entry => entry.2.blocked) = true <;> simp [blocked, others]

theorem openEdges_eq_none_iff {cells : List (Path × Cell)} :
    openEdges cells = none ↔ ∃ entry ∈ cells, entry.2.blocked = true := by
  unfold openEdges
  simp

theorem mem_openEdges {cells : List (Path × Cell)} {edges : List (Path × Address)}
    (found : openEdges cells = some edges) {path : Path} {source : Address} :
    (path, source) ∈ edges ↔ ∃ cell, (path, cell) ∈ cells ∧ source ∈ cell.pending := by
  unfold openEdges at found
  split at found
  · simp at found
  · obtain rfl := Option.some.inj found
    simp only [List.mem_flatMap, List.mem_map, Prod.exists, Prod.mk.injEq]
    constructor
    · rintro ⟨_, cell, member, _, pending, rfl, rfl⟩
      exact ⟨cell, member, pending⟩
    · rintro ⟨cell, member, pending⟩
      exact ⟨path, cell, member, source, pending, rfl, rfl⟩

/-- The scan finds the open edges of the visible keys. -/
theorem pendingOf_eq {top : Path} {skipped : Option Path} {cells : List (Path × Cell)}
    (ordered : Ordered cells) (behind : Behind skipped cells) :
    pendingOf top skipped cells =
      openEdges (cells.filter fun entry => Visible top skipped cells entry.1) := by
  induction cells generalizing skipped with
  | nil => rfl
  | cons first rest ih =>
    have later := ih (List.pairwise_cons.1 ordered).2 (behind_skippedAfter top ordered behind)
    have same : (rest.filter fun entry => Visible top skipped (first :: rest) entry.1) =
        rest.filter fun entry => Visible top (skippedAfter top skipped first) rest entry.1 :=
      List.filter_congr fun entry member =>
        decide_eq_decide.2 (visible_cons ordered behind member)
    rw [pendingOf_cons, List.filter_cons, same]
    simp only [decide_eq_true_eq, visible_self ordered]
    unfold skippedAfter at later ⊢
    by_cases hidden : skips skipped first.1 = true
    · simpa [hidden] using later
    · by_cases shield : (first.1 != top && first.2.known) = true
      · simpa [hidden, shield] using later
      · simp only [hidden, shield, Bool.false_eq_true, ↓reduceIte, and_self] at later ⊢
        rw [openEdges_cons, later]

/-- In a section, what is visible is what no known key shields. -/
theorem visible_subtree {tree : Tree} {top path : Path} :
    Visible top none (tree.subtree top) path ↔ tree.Exposed top path := by
  constructor
  · rintro ⟨-, others⟩ above cell found known within different
    exact others (above, cell) (mem_subtree.2 ⟨found, within⟩) known different
  · intro exposed
    refine ⟨rfl, fun entry member known different => ?_⟩
    obtain ⟨found, within⟩ := mem_subtree.1 member
    exact exposed entry.1 entry.2 found known within different

theorem behind_none (cells : List (Path × Cell)) : Behind none cells := by
  intro top chosen
  simp at chosen

theorem exposed_self (tree : Tree) (top : Path) : tree.Exposed top top := by
  intro above cell found known within different
  cases upper : top.isWithin above with
  | false => rfl
  | true => exact absurd (Path.isWithin_antisymm within upper) different

instance (tree : Tree) (top : Path) : DecidablePred (tree.Exposed top) :=
  fun _ => decidable_of_iff _ visible_subtree

/-- The scan of a section finds the open edges of its exposed keys. -/
theorem pending?_eq (tree : Tree) (top : Path) : tree.pending? top =
    openEdges ((tree.subtree top).filter fun entry => tree.Exposed top entry.1) := by
  unfold pending?
  rw [pendingOf_eq (tree.ordered_subtree top) (behind_none _)]
  exact congrArg openEdges (List.filter_congr fun _ _ => decide_eq_decide.2 visible_subtree)

/-- The open edges of a section are not listed exactly when an exposed key is blocked. -/
theorem pending?_eq_none_iff {tree : Tree} {top : Path} :
    tree.pending? top = none ↔ ∃ path cell, tree.cell? path = some cell ∧
      path.isWithin top = true ∧ tree.Exposed top path ∧ cell.blocked = true := by
  rw [pending?_eq, openEdges_eq_none_iff]
  simp only [List.mem_filter, Prod.exists, mem_subtree, decide_eq_true_eq, and_assoc]

/-- The edges listed for a section are the open edges of its exposed keys. -/
theorem mem_pending? {tree : Tree} {top : Path} {edges : List (Path × Address)}
    (scanned : tree.pending? top = some edges) {path : Path} {source : Address} :
    (path, source) ∈ edges ↔ ∃ cell, tree.cell? path = some cell ∧ path.isWithin top = true ∧
      tree.Exposed top path ∧ source ∈ cell.pending := by
  rw [pending?_eq] at scanned
  rw [mem_openEdges scanned]
  simp only [List.mem_filter, mem_subtree, decide_eq_true_eq, and_assoc]

@[simp] theorem mem_pending {cell : Cell} {source : Address} :
    source ∈ cell.pending ↔ ∃ edge, cell.waiting[source]? = some edge ∧ edge.satisfied = false := by
  simp only [Cell.pending, List.mem_map, List.mem_filter, Prod.exists, exists_and_right,
    exists_eq_right, Std.ExtTreeMap.mem_toList_iff_getElem?_eq_some, Bool.not_eq_true']

/-! ## What scans see -/

theorem isWithin_eq_decide (path top : Path) : path.isWithin top = decide (top <+: path) := by
  rw [Bool.eq_iff_iff, Path.isWithin_iff, decide_eq_true_iff]

theorem descendants_eq_filter (tree : Tree) (top : Path) : tree.descendants top =
    tree.keys.toList.filter fun entry => top <+: entry.1 ∧ entry.1 ≠ top := by
  unfold descendants
  rw [dropWhile_top (tree.ordered_subtree top) fun entry member => (mem_subtree.1 member).2,
    subtree_eq_filter, List.filter_filter]
  refine List.filter_congr fun entry _ => ?_
  rw [isWithin_eq_decide, Bool.eq_iff_iff]
  simp only [Bool.and_eq_true, bne_iff_ne, decide_eq_true_eq, and_comm]

/-- Whatever the keys of a tree are, the scans, which start at a path and end at the first key
outside, see the keys at and below the path, in order, and no others. A known key below the path
hides what lies at or below it, and nothing else. -/
theorem scans_exact (tree : Tree) (top : Path) :
    (tree.keys.keys.Pairwise fun earlier later => compare earlier later = .lt) ∧
    tree.subtreePaths top = tree.keys.keys.filter (fun path => top <+: path) ∧
    tree.descendants top =
      tree.keys.toList.filter (fun entry => top <+: entry.1 ∧ entry.1 ≠ top) ∧
    tree.children top = tree.keys.keys.filter (fun path =>
      top <+: path ∧ path.length = top.length + 1) ∧
    tree.pending? top = openEdges (tree.keys.toList.filter fun entry =>
      top <+: entry.1 ∧ tree.Exposed top entry.1) := by
  refine ⟨Std.ExtTreeMap.ordered_keys, ?_, descendants_eq_filter tree top, ?_, ?_⟩
  · unfold subtreePaths
    rw [subtree_eq_filter, ← Std.ExtTreeMap.map_fst_toList_eq_keys, List.filter_map]
    simp only [isWithin_eq_decide]
    rfl
  · unfold children
    rw [descendants_eq_filter, ← Std.ExtTreeMap.map_fst_toList_eq_keys, List.filter_map,
      List.filter_map, List.filter_filter]
    refine congrArg _ (List.filter_congr fun entry _ => ?_)
    rw [Bool.eq_iff_iff]
    simp only [Function.comp_apply, Bool.and_eq_true, beq_iff_eq, decide_eq_true_eq]
    constructor
    · rintro ⟨longer, within, -⟩
      exact ⟨within, longer⟩
    · rintro ⟨within, longer⟩
      refine ⟨longer, within, fun same => ?_⟩
      rw [same] at longer
      omega
  · rw [pending?_eq, subtree_eq_filter, List.filter_filter]
    refine congrArg openEdges (List.filter_congr fun entry _ => ?_)
    rw [isWithin_eq_decide, Bool.decide_and, Bool.and_comm]

/-- Segments that begin alike lie apart. -/
example : ((((ofRole .plain).ensure ["visual", "x"]).ensure ["visual0"]).ensure
    ["visual-"]).subtreePaths ["visual"] = [["visual"], ["visual", "x"]] := by
  decide +kernel

/-! ## What goes with a key -/

/-- What is completed with a key has not been, and is not blocked. -/
theorem mem_ready_followingOf {knownTop : Bool} {skipped : Option Path}
    {cells : List (Path × Cell)} {path : Path}
    (ready : path ∈ (followingOf knownTop skipped cells).ready) :
    knownTop = false ∧
      ∃ cell, (path, cell) ∈ cells ∧ cell.propagated = false ∧ cell.blocked = false := by
  induction cells generalizing skipped with
  | nil => simp [followingOf] at ready
  | cons first rest ih =>
    have later : ∀ {skipped : Option Path}, path ∈ (followingOf knownTop skipped rest).ready →
        knownTop = false ∧ ∃ cell, (path, cell) ∈ first :: rest ∧ cell.propagated = false ∧
          cell.blocked = false := by
      intro skipped member
      obtain ⟨top, cell, listed, open_⟩ := ih member
      exact ⟨top, cell, List.mem_cons_of_mem first listed, open_⟩
    unfold followingOf at ready
    split at ready
    · dsimp only at ready
      split at ready <;> exact later ready
    · split at ready
      · exact later ready
      · rename_i waiting
        split at ready
        · exact later ready
        · rename_i free
          rcases List.mem_cons.1 ready with rfl | member
          · simp only [Bool.or_eq_true, not_or, Bool.not_eq_true] at free
            exact ⟨free.1, first.2, List.mem_cons_self .., by simpa using waiting, free.2⟩
          · exact later member

/-- Every key of a list that is not complete is completed with the top or checked later. -/
theorem mem_followingOf {knownTop : Bool} {skipped : Option Path} {cells : List (Path × Cell)}
    {path : Path} {cell : Cell} (listed : (path, cell) ∈ cells)
    (waiting : cell.propagated = false) :
    path ∈ (followingOf knownTop skipped cells).ready ∨
      path ∈ (followingOf knownTop skipped cells).deferred := by
  induction cells generalizing skipped with
  | nil => simp at listed
  | cons first rest ih =>
    unfold followingOf
    rcases List.mem_cons.1 listed with rfl | later
    · simp only [waiting, Bool.false_eq_true, ↓reduceIte]
      split
      · simp
      · split <;> simp
    · split
      · dsimp only
        split
        · exact ih later
        · exact (ih later).imp id (List.mem_cons_of_mem _)
      · split
        · exact ih later
        · split
          · exact (ih later).imp id (List.mem_cons_of_mem _)
          · exact (ih later).imp (List.mem_cons_of_mem _) id

/-- Only keys strictly below an unknown key are completed with it. -/
theorem mem_ready_following {tree : Tree} {top path : Path}
    (ready : path ∈ (tree.following top).ready) :
    ((tree.cell? top).map Cell.known).getD false = false ∧
      ∃ cell, tree.cell? path = some cell ∧ path.isWithin top = true ∧ path ≠ top ∧
        cell.propagated = false ∧ cell.blocked = false := by
  unfold following at ready
  obtain ⟨unknown, cell, listed, waiting, free⟩ :=
    mem_ready_followingOf (List.mem_mergeSort.1 ready)
  obtain ⟨found, within, different⟩ := mem_descendants.1 listed
  exact ⟨unknown, cell, found, within, different, waiting, free⟩

theorem mem_following {tree : Tree} {top path : Path} {cell : Cell}
    (found : tree.cell? path = some cell) (within : path.isWithin top = true)
    (different : path ≠ top) (waiting : cell.propagated = false) :
    path ∈ (tree.following top).ready ∨ path ∈ (tree.following top).deferred := by
  unfold following
  rw [List.mem_mergeSort]
  exact mem_followingOf (mem_descendants.2 ⟨found, within, different⟩) waiting

/-! ## Changes of a section -/

theorem ext_cell? {left right : Tree} (roles : left.role = right.role)
    (cells : ∀ path, left.cell? path = right.cell? path) : left = right := by
  obtain ⟨role, keys⟩ := left
  obtain ⟨otherRole, otherKeys⟩ := right
  obtain rfl : role = otherRole := roles
  obtain rfl : keys = otherKeys := Std.ExtTreeMap.ext_getElem? fun path => cells path
  rfl

theorem role_foldl_update (change : Cell → Cell) (paths : List Path) (tree : Tree) :
    (paths.foldl (fun tree path => tree.update path change) tree).role = tree.role := by
  induction paths generalizing tree with
  | nil => rfl
  | cons first rest ih => exact ih _

/-- A change that does nothing the second time, made at each path of a list. -/
theorem cell?_foldl_update (change : Cell → Cell)
    (idempotent : ∀ cell, change (change cell) = change cell) (paths : List Path) (tree : Tree)
    (query : Path) :
    (paths.foldl (fun tree path => tree.update path change) tree).cell? query =
      (tree.cell? query).map fun cell => if query ∈ paths then change cell else cell := by
  induction paths generalizing tree with
  | nil => simp
  | cons first rest ih =>
    rw [List.foldl_cons, ih, cell?_update]
    by_cases same : query = first
    · subst same
      cases found : tree.cell? query with
      | none => simp
      | some cell => by_cases later : query ∈ rest <;> simp [later, idempotent]
    · simp [same]

/-- Makes every key at and below a path active. -/
def raise (tree : Tree) (top : Path) : Tree :=
  { tree with
    keys := tree.keys.map fun path cell =>
      if path.isWithin top then { cell with active := true } else cell }

@[simp] theorem role_raise (tree : Tree) (top : Path) : (tree.raise top).role = tree.role := rfl

@[simp] theorem cell?_raise (tree : Tree) (top query : Path) :
    (tree.raise top).cell? query = (tree.cell? query).map fun cell =>
      if query.isWithin top then { cell with active := true } else cell :=
  Std.ExtTreeMap.getElem?_map

theorem raise_eq_foldl (tree : Tree) (top : Path) :
    tree.raise top = (tree.subtreePaths top).foldl
      (fun tree path => tree.update path fun cell => { cell with active := true }) tree := by
  refine ext_cell? (role_foldl_update _ _ tree).symm fun query => ?_
  rw [cell?_raise, cell?_foldl_update (fun cell => { cell with active := true }) fun _ => rfl]
  cases found : tree.cell? query with
  | none => rfl
  | some cell =>
    have listed : query ∈ tree.subtreePaths top ↔ query.isWithin top = true := by
      simp only [subtreePaths, List.mem_map, Prod.exists, mem_subtree, exists_and_right,
        exists_eq_right, found, Option.some.injEq, exists_eq', true_and]
    simp only [Option.map_some, listed]

end ConceptLaws.Propagation.Tree
