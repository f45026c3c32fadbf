import ConceptLaws.Proofs.Path
import ConceptLaws.Propagation.Tree

/-! Trees by their keys.
Each operation on a tree is described by what `cell?` answers afterwards. A section of the key list
is what lies at or below a path; the scans of a section find the open edges that no known key below
the path shields, and the keys that are completed together with it. -/

namespace ConceptLaws.Propagation.Tree

/-! ## Single keys -/

@[simp] theorem role_update (tree : Tree) (path : Path) (change : Cell → Cell) :
    (tree.update path change).role = tree.role := rfl

@[simp] theorem role_ensure (tree : Tree) (path : Path) : (tree.ensure path).role = tree.role := rfl

@[simp] theorem role_erase (tree : Tree) (path : Path) : (tree.erase path).role = tree.role := by
  unfold erase
  split <;> rfl

@[simp] theorem cell?_update (tree : Tree) (path query : Path) (change : Cell → Cell) :
    (tree.update path change).cell? query =
      if query = path then (tree.cell? path).map change else tree.cell? query := by
  simp only [cell?, update, Std.ExtTreeMap.getElem?_modify, Std.compare_eq_iff_eq]
  by_cases same : path = query
  · simp [same]
  · have different : query ≠ path := fun equal => same equal.symm
    simp [same, different]

theorem cell?_erase (tree : Tree) (path query : Path) :
    (tree.erase path).cell? query =
      if query = path ∧ path ≠ Path.root then none else tree.cell? query := by
  unfold erase
  cases path with
  | nil => simp [Path.root]
  | cons segment rest =>
    simp only [List.isEmpty_cons, Bool.false_eq_true, ↓reduceIte, cell?,
      Std.ExtTreeMap.getElem?_erase, Std.compare_eq_iff_eq]
    by_cases same : query = segment :: rest
    · simp [same, Path.root]
    · have different : segment :: rest ≠ query := fun equal => same equal.symm
      simp [same, different]

theorem cell?_ofRole (role : Role) (query : Path) :
    (ofRole role).cell? query = if query = Path.root then some (.fresh false) else none := by
  simp only [cell?, ofRole, Std.ExtTreeMap.getElem?_insert, Std.compare_eq_iff_eq]
  by_cases same : query = Path.root
  · simp [same]
  · have different : Path.root ≠ query := fun equal => same equal.symm
    simp [same, different]

theorem contains_eq_isSome (tree : Tree) (path : Path) :
    tree.contains path = (tree.cell? path).isSome := by
  simp [contains, cell?, Std.ExtTreeMap.isSome_getElem?_eq_contains]

/-- Every key stands below keys only. -/
def Rooted (tree : Tree) : Prop :=
  ∀ path cell, tree.cell? path = some cell → ∀ above, path.isWithin above = true →
    (tree.cell? above).isSome

theorem rooted_ofRole (role : Role) : (ofRole role).Rooted := by
  intro path cell found above within
  rw [cell?_ofRole] at found ⊢
  by_cases same : path = Path.root
  · subst same
    simp [Path.isWithin_root_iff.1 within]
  · simp [same] at found

/-- The paths that `ensure` adds: no key stands from them down to the path. -/
theorem mem_missing {tree : Tree} (rooted : tree.Rooted) {path query : Path} :
    (query ∈ path.ancestry.takeWhile fun above => !tree.contains above) ↔
      path.isWithin query = true ∧ tree.cell? query = none := by
  have decided : ∀ above, (!tree.contains above) = true ↔ tree.cell? above = none := by
    intro above
    rw [contains_eq_isSome]
    cases tree.cell? above <;> simp
  constructor
  · intro member
    exact ⟨Path.mem_ancestry.1 (List.takeWhile_sublist _ |>.subset member),
      (decided query).1 (List.all_eq_true.1 List.all_takeWhile query member)⟩
  · rintro ⟨within, absent⟩
    obtain ⟨lower, upper, split, member, below⟩ := Path.exists_ancestry_eq_append within
    rw [split, List.takeWhile_append_of_pos]
    · exact List.mem_append_left _ member
    · intro above lowerMember
      rw [decided, Option.eq_none_iff_forall_ne_some]
      intro cell found
      have present := rooted above cell found query (below above lowerMember)
      simp [absent] at present

theorem getElem?_foldl_insert (cell : Cell) (paths : List Path) (keys : Std.ExtTreeMap Path Cell)
    (query : Path) :
    (paths.foldl (fun keys above => keys.insert above cell) keys)[query]? =
      if query ∈ paths then some cell else keys[query]? := by
  induction paths generalizing keys with
  | nil => simp
  | cons first rest ih =>
    simp only [List.foldl_cons, ih, Std.ExtTreeMap.getElem?_insert, Std.compare_eq_iff_eq,
      List.mem_cons]
    by_cases later : query ∈ rest
    · simp [later]
    · by_cases same : first = query
      · simp [same]
      · have different : query ≠ first := fun equal => same equal.symm
        simp [later, same, different]

/-- Whatever stood in a tree, a path that was added stands there. -/
theorem cell?_ensure_self (tree : Tree) (path : Path) :
    ∃ cell, (tree.ensure path).cell? path = some cell := by
  unfold ensure cell?
  rw [getElem?_foldl_insert]
  split
  · exact ⟨_, rfl⟩
  · rename_i present
    have first : path.ancestry.head? = some path := by simp [Path.ancestry, List.range_succ]
    obtain ⟨rest, same⟩ := List.head?_eq_some_iff.1 first
    rw [same, List.takeWhile_cons] at present
    split at present
    · simp at present
    · rename_i held
      have there : tree.cell? path ≠ none := by simpa [contains_eq_isSome] using held
      exact Option.ne_none_iff_exists'.1 there

/-- Adding a path adds its missing ancestors with it and changes no key. -/
theorem cell?_ensure {tree : Tree} (rooted : tree.Rooted) (path query : Path) :
    (tree.ensure path).cell? query =
      match tree.cell? query with
      | some cell => some cell
      | none => if path.isWithin query then some (.fresh (tree.inheritsActive path)) else none := by
  unfold ensure
  simp only [cell?]
  rw [getElem?_foldl_insert]
  change (if _ then _ else tree.cell? query) = match tree.cell? query with | some _ => _ | none => _
  simp only [mem_missing rooted]
  cases found : tree.cell? query <;> simp

theorem cell?_ensure_of_some {tree : Tree} (rooted : tree.Rooted) {path query : Path} {cell : Cell}
    (found : tree.cell? query = some cell) : (tree.ensure path).cell? query = some cell := by
  rw [cell?_ensure rooted, found]

/-- A key of the larger tree was there, or it is new and carries no edge. -/
theorem cell?_of_ensure {tree : Tree} (rooted : tree.Rooted) {path query : Path} {cell : Cell}
    (found : (tree.ensure path).cell? query = some cell) :
    tree.cell? query = some cell ∨ tree.cell? query = none ∧ path.isWithin query = true ∧
      cell = .fresh (tree.inheritsActive path) := by
  rw [cell?_ensure rooted] at found
  cases old : tree.cell? query with
  | some other =>
    rw [old] at found
    exact Or.inl found
  | none =>
    rw [old] at found
    by_cases within : path.isWithin query = true
    · simp only [within, ↓reduceIte, Option.some.injEq] at found
      exact Or.inr ⟨rfl, within, found.symm⟩
    · simp [within] at found

theorem Rooted.ensure {tree : Tree} (rooted : tree.Rooted) (path : Path) :
    (tree.ensure path).Rooted := by
  intro query cell found above within
  rw [cell?_ensure rooted]
  rcases cell?_of_ensure rooted found with old | ⟨-, below, -⟩
  · obtain ⟨upper, present⟩ := Option.isSome_iff_exists.1 (rooted query cell old above within)
    simp [present]
  · cases tree.cell? above with
    | some _ => rfl
    | none => simp [Path.isWithin_trans below within]

theorem Rooted.update {tree : Tree} (rooted : tree.Rooted) (path : Path) (change : Cell → Cell) :
    (tree.update path change).Rooted := by
  have present : ∀ query, ((tree.update path change).cell? query).isSome =
      (tree.cell? query).isSome := by
    intro query
    rw [cell?_update]
    by_cases same : query = path <;> simp [same]
  intro query cell found above within
  have old : (tree.cell? query).isSome := by rw [← present, found]; rfl
  obtain ⟨before, foundBefore⟩ := Option.isSome_iff_exists.1 old
  rw [present]
  exact rooted query before foundBefore above within

/-- The closest key at or above a path decides whether a new key there is active. -/
theorem inheritsActive_of_active {tree : Tree} {path above : Path} {cell : Cell}
    (within : path.isWithin above = true) (found : tree.cell? above = some cell)
    (lower : ∀ middle lowerCell, middle.isWithin above = true →
      tree.cell? middle = some lowerCell → lowerCell.active = true) :
    tree.inheritsActive path = true := by
  unfold inheritsActive
  obtain ⟨lowerPaths, upper, split, member, below⟩ := Path.exists_ancestry_eq_append within
  rw [split, List.findSome?_append]
  cases closest : lowerPaths.findSome? tree.cell? with
  | none =>
    have absent := List.findSome?_eq_none_iff.1 closest above member
    simp [found] at absent
  | some nearest =>
    obtain ⟨middle, middleMember, present⟩ := List.exists_of_findSome?_eq_some closest
    simp [lower middle nearest (below middle middleMember) present]

end ConceptLaws.Propagation.Tree
