import ConceptLaws.Path

/-! Paths in their order.
The paths at and below a path are an interval of the lexicographic order: whatever stands between
the path and one below it lies below it too. The ancestry of a path is what it lies at or below. -/

namespace ConceptLaws.Path

theorem isWithin_iff {path top : Path} : path.isWithin top = true ↔ top <+: path :=
  List.isPrefixOf_iff_prefix

@[simp] theorem isWithin_refl (path : Path) : path.isWithin path = true :=
  isWithin_iff.2 List.prefix_rfl

@[simp] theorem isWithin_root (path : Path) : path.isWithin root = true :=
  isWithin_iff.2 List.nil_prefix

theorem isWithin_append (path suffix : Path) : (path ++ suffix).isWithin path = true :=
  isWithin_iff.2 (List.prefix_append path suffix)

theorem isWithin_trans {path middle top : Path} (lower : path.isWithin middle = true)
    (upper : middle.isWithin top = true) : path.isWithin top = true :=
  isWithin_iff.2 ((isWithin_iff.1 upper).trans (isWithin_iff.1 lower))

theorem isWithin_antisymm {path top : Path} (lower : path.isWithin top = true)
    (upper : top.isWithin path = true) : path = top :=
  ((isWithin_iff.1 upper).eq_of_length_le (isWithin_iff.1 lower).length_le)

/-- Two paths above one path are comparable. -/
theorem isWithin_total {path left right : Path} (first : path.isWithin left = true)
    (second : path.isWithin right = true) :
    left.isWithin right = true ∨ right.isWithin left = true := by
  rcases List.prefix_or_prefix_of_prefix (isWithin_iff.1 first) (isWithin_iff.1 second) with
    below | below
  · exact Or.inr (isWithin_iff.2 below)
  · exact Or.inl (isWithin_iff.2 below)

theorem isWithin_root_iff {top : Path} : root.isWithin top = true ↔ top = root := by
  rw [isWithin_iff, root, List.prefix_nil]

/-- A path comes before what lies below it. -/
theorem compare_ne_lt_of_isWithin {path top : Path} (within : path.isWithin top = true) :
    compare path top ≠ .lt := by
  obtain ⟨suffix, rfl⟩ := isWithin_iff.1 within
  clear within
  induction top with
  | nil => cases suffix <;> simp
  | cons segment rest ih => simpa using ih

/-- What stands between a path and one below it lies below it. -/
theorem isWithin_of_between {path lower top : Path} (within : path.isWithin top = true)
    (after : compare lower top ≠ .lt) (before : compare lower path = .lt) :
    lower.isWithin top = true := by
  obtain ⟨suffix, rfl⟩ := isWithin_iff.1 within
  clear within
  induction top generalizing lower with
  | nil => exact isWithin_root lower
  | cons segment rest ih =>
    cases lower with
    | nil => simp at after
    | cons first others =>
      simp only [List.cons_append, List.compare_cons_cons, ne_eq, Ordering.then_eq_lt, not_or,
        not_and] at after before
      have same : compare first segment = .eq := by
        cases order : compare first segment with
        | lt => exact absurd order after.1
        | eq => rfl
        | gt => simp [order] at before
      have within := ih (after.2 same) (by simpa [same] using before)
      rw [Std.compare_eq_iff_eq.1 same, isWithin_iff]
      exact (List.prefix_cons_inj segment).2 (isWithin_iff.1 within)

@[simp] theorem mem_ancestry {path above : Path} :
    above ∈ path.ancestry ↔ path.isWithin above = true := by
  rw [isWithin_iff, ancestry, List.mem_map]
  constructor
  · rintro ⟨length, -, rfl⟩
    exact List.take_prefix length path
  · intro above
    refine ⟨_, ?_, (List.prefix_iff_eq_take.1 above).symm⟩
    simpa using Nat.lt_succ_of_le above.length_le

/-- The ancestry of a path comes longest first. -/
theorem pairwise_ancestry (path : Path) :
    path.ancestry.Pairwise fun lower upper => upper.length < lower.length := by
  unfold ancestry
  rw [List.pairwise_map, List.pairwise_reverse]
  refine List.pairwise_lt_range.imp_of_mem fun first second less => ?_
  simp only [List.mem_range] at first second
  simp only [List.length_take]
  omega

/-- The ancestry of a path lists what lies at or below one of its ancestors before what lies above.
-/
theorem exists_ancestry_eq_append {path top : Path} (within : path.isWithin top = true) :
    ∃ lower upper, path.ancestry = lower ++ upper ∧ top ∈ lower ∧
      ∀ above ∈ lower, Path.isWithin above top = true := by
  obtain ⟨suffix, rfl⟩ := isWithin_iff.1 within
  refine ⟨(List.range (suffix.length + 1)).reverse.map fun length =>
      (top ++ suffix).take (top.length + length),
    (List.range top.length).reverse.map fun length => (top ++ suffix).take length, ?_, ?_, ?_⟩
  · unfold ancestry
    rw [List.length_append, Nat.add_assoc, List.range_add, List.reverse_append, List.map_append,
      ← List.map_reverse, List.map_map]
    rfl
  · exact List.mem_map.2 ⟨0, by simp, by simp⟩
  · intro above member
    obtain ⟨length, -, rfl⟩ := List.mem_map.1 member
    rw [isWithin_iff, List.take_append, List.take_of_length_le (by omega)]
    exact List.prefix_append _ _

theorem parent?_eq_some_iff {path parent : Path} :
    path.parent? = some parent ↔ ∃ segment, path = parent ++ [segment] := by
  rcases List.eq_nil_or_concat path with rfl | ⟨parents, segment, rfl⟩
  · simp [parent?]
  · rw [List.concat_eq_append]
    have filled : (parents ++ [segment]).isEmpty = false := by simp
    simp only [parent?, filled, Bool.false_eq_true, ↓reduceIte, List.dropLast_concat,
      Option.some.injEq]
    exact ⟨fun same => ⟨segment, by rw [same]⟩, fun ⟨_, same⟩ => (List.append_inj' same rfl).1⟩

theorem parent?_root : root.parent? = none := rfl

theorem isWithin_parent {path parent : Path} (above : path.parent? = some parent) :
    path.isWithin parent = true := by
  obtain ⟨segment, rfl⟩ := parent?_eq_some_iff.1 above
  exact isWithin_append parent [segment]

/-! ## Children -/

@[simp] theorem length_child (path : Path) (segment : String) :
    (path.child segment).length = path.length + 1 := by
  simp [child]

@[simp] theorem child_inj {path : Path} {first second : String} :
    path.child first = path.child second ↔ first = second := by
  simp [child]

theorem child_ne (path : Path) (segment : String) : path.child segment ≠ path := by
  simp [child]

theorem isWithin_child (path : Path) (segment : String) :
    (path.child segment).isWithin path = true :=
  isWithin_append path [segment]

/-- Above a child stand the child itself and what stands above its parent. -/
theorem child_isWithin_iff {path above : Path} {segment : String} :
    (path.child segment).isWithin above = true ↔
      above = path.child segment ∨ path.isWithin above = true := by
  rw [isWithin_iff, isWithin_iff]
  exact List.prefix_concat_iff

theorem child_append (path : Path) (segment : String) (suffix : Path) :
    path.child segment ++ suffix = path ++ segment :: suffix := by
  simp [child]

end ConceptLaws.Path
