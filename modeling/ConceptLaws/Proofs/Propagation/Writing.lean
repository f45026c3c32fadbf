import ConceptLaws.Proofs.Propagation.Protection

/-! Where commands write.
A command writes below its target at the suffixes that it is evaluated for, or at new children
there; one that clears takes away all that stands at or below the target. Every other key is left
as it is, except that keys without a value may be added. -/

namespace ConceptLaws.Propagation.Network

/-- A key is as it was, or it is new and nothing is there yet. -/
def Untouched (network later : Network) (key : Address) : Prop :=
  later.cell? key = network.cell? key ∨
    network.cell? key = none ∧ ∃ active, later.cell? key = some (.fresh active)

variable {network later : Network} {key : Address}

theorem untouched_refl (network : Network) (key : Address) : network.Untouched network key :=
  Or.inl rfl

theorem Untouched.trans {first second third : Network} (earlier : first.Untouched second key)
    (later : second.Untouched third key) : first.Untouched third key := by
  rcases later with same | ⟨absent, active, new⟩
  · rcases earlier with before | ⟨absent, active, new⟩
    · exact Or.inl (same.trans before)
    · exact Or.inr ⟨absent, active, same.trans new⟩
  · rcases earlier with before | ⟨gone, _, found⟩
    · exact Or.inr ⟨before.symm.trans absent, active, new⟩
    · simp [found] at absent

theorem untouched_foldl {α : Type} {step : Network → α → Network} (items : List α)
    (each : ∀ item ∈ items, ∀ network : Network, network.Untouched (step network item) key)
    (network : Network) : network.Untouched (items.foldl step network) key := by
  induction items generalizing network with
  | nil => exact network.untouched_refl key
  | cons first rest ih =>
    exact (each first List.mem_cons_self network).trans
      (ih (fun item member => each item (List.mem_cons_of_mem first member)) _)

theorem Untouched.value? (untouched : network.Untouched later key) :
    later.value? key = network.value? key := by
  unfold Network.value?
  rcases untouched with same | ⟨absent, active, new⟩
  · rw [same]
  · rw [absent, new]
    rfl

theorem Untouched.isPropagated (untouched : network.Untouched later key) :
    later.isPropagated key = network.isPropagated key := by
  unfold Network.isPropagated
  rcases untouched with same | ⟨absent, active, new⟩
  · rw [same]
  · rw [absent, new]
    rfl

/-! ## Actions -/

theorem untouched_of_trees (trees : later.trees = network.trees) (key : Address) :
    network.Untouched later key := by
  refine Or.inl ?_
  unfold cell? tree?
  rw [trees]

theorem untouched_noteChange (network : Network) (written key : Address) :
    network.Untouched (network.noteChange written) key := by
  refine untouched_of_trees ?_ key
  unfold noteChange
  split <;> rfl

theorem untouched_ensureWith (network : Network) {written : Address} (change : Cell → Cell)
    (different : key ≠ written) : network.Untouched (network.ensureWith written change) key := by
  unfold Untouched
  rw [ensureWith_eq, cell?_updateCell, if_neg different]
  exact network.cell?_ensure_cases written key

theorem untouched_write (network : Network) {written : Address} (value : Datum)
    (different : key ≠ written) : network.Untouched (network.write written value).2 key := by
  unfold write
  split
  · exact network.untouched_refl key
  split
  · exact network.untouched_refl key
  · exact (network.untouched_ensureWith _ different).trans (untouched_noteChange _ written key)

theorem untouched_accumulate (network : Network) (operation : Arithmetic.Operator)
    {written : Address} (value : Datum) (different : key ≠ written) :
    network.Untouched (network.accumulate operation written value) key := by
  unfold accumulate
  split
  · exact network.untouched_write value different
  split
  · exact network.untouched_write _ different
  · exact network.untouched_refl key

theorem untouched_appendChild (network : Network) {top : Address} (value : Datum)
    (different : ∀ segment, key ≠ ⟨top.tree, top.path.child segment⟩) :
    network.Untouched (network.appendChild top value).2 key := by
  unfold appendChild
  split
  · exact network.untouched_refl key
  · exact network.untouched_write value (different _)

theorem untouched_appendValue (network : Network) {written : Address} (value : Datum)
    (different : key ≠ written) : network.Untouched (network.appendValue written value).2 key := by
  unfold appendValue
  split <;> exact network.untouched_write _ different

theorem untouched_dropValue (network : Network) {dropped : Address} (different : key ≠ dropped) :
    network.Untouched (network.dropValue dropped) key := by
  refine Or.inl ?_
  unfold dropValue
  rw [cell?_updateCell, if_neg different]

theorem untouched_eraseLeaf (network : Network) {handle : Handle} {path : Path}
    (different : key ≠ ⟨handle, path⟩) : network.Untouched (eraseLeaf handle network path) key := by
  refine Or.inl ?_
  unfold eraseLeaf cell?
  rw [tree?_updateTree]
  split
  · rename_i same
    rw [same]
    cases network.tree? handle with
    | none => rfl
    | some tree =>
      have elsewhere : key.path ≠ path := by
        rintro rfl
        cases key
        exact different (by simp_all)
      simp only [Option.map_some, Option.bind_eq_bind, Option.bind_some]
      split
      · rw [Tree.cell?_erase, if_neg fun gone => elsewhere gone.1]
      · rfl
  · rfl

/-- Outside of what is cleared nothing changes. -/
theorem untouched_clearKey (network : Network) {top : Address}
    (outside : key.tree = top.tree → key.path.isWithin top.path = false) :
    network.Untouched (network.clearKey top) key := by
  unfold clearKey
  split
  · exact network.untouched_refl key
  rename_i tree live
  have apart : ∀ path, path.isWithin top.path = true → key ≠ ⟨top.tree, path⟩ := by
    rintro path within rfl
    simp [outside rfl] at within
  have below : ∀ entry ∈ (tree.subtree top.path).drop 1, entry.1.isWithin top.path = true :=
    fun entry member => (Tree.mem_subtree.1 (List.mem_of_mem_drop member)).2
  have lower : ∀ path ∈ ((tree.subtree top.path).drop 1).map Prod.fst,
      key ≠ ⟨top.tree, path⟩ := by
    intro path member
    obtain ⟨entry, listed, rfl⟩ := List.mem_map.1 member
    exact apart entry.1 (below entry listed)
  have dropped := (network.untouched_dropValue (apart top.path (Path.isWithin_refl _))).trans
    (untouched_foldl (((tree.subtree top.path).drop 1).map Prod.fst)
      (fun path member (later : Network) => later.untouched_dropValue (lower path member)) _)
  refine dropped.trans (untouched_foldl _ (fun path member later => ?_) _)
  obtain ⟨entry, listed, rfl⟩ := List.mem_map.1 (List.mem_mergeSort.1 member)
  exact later.untouched_eraseLeaf (apart entry.1 (below entry (List.mem_filter.1 listed).1))

/-! ## Commands -/

/-- A command may change what stands at a key. -/
def Touches (network : Network) (command : Command.Compiled) (target key : Address) : Prop :=
  match command.action with
  | .clear => key.tree = target.tree ∧ key.path.isWithin target.path = true
  | .addChild => ∃ suffix ∈ network.suffixes command, ∃ segment,
      key = ⟨target.tree, (target.below suffix).path.child segment⟩
  | _ => ∃ suffix ∈ network.suffixes command, key = target.below suffix

theorem untouched_applyAction (network : Network) {action : Command.Action} {top : Address}
    (value : Datum) (keeps : action ≠ .clear) (child : action = .addChild →
      ∀ segment, key ≠ ⟨top.tree, top.path.child segment⟩)
    (own : action ≠ .addChild → key ≠ top) :
    network.Untouched (network.applyAction action top value) key := by
  cases action with
  | assign => exact network.untouched_write value (own nofun)
  | increase => exact network.untouched_accumulate _ value (own nofun)
  | decrease => exact network.untouched_accumulate _ value (own nofun)
  | scale => exact network.untouched_accumulate _ value (own nofun)
  | addChild => exact network.untouched_appendChild value (child rfl)
  | addValue => exact network.untouched_appendValue value (own nofun)
  | clear => exact absurd rfl keeps

theorem untouched_carryOut (network : Network) {command : Command.Compiled} {target : Address}
    (spared : ¬network.Touches command target key) :
    network.Untouched (network.carryOut command target) key := by
  have counted := untouched_of_trees (rfl : (network.updateCounts fun counts =>
    { counts with commands := counts.commands + 1 }).trees = network.trees) key
  unfold carryOut
  dsimp only
  split
  · rename_i clears
    refine counted.trans (untouched_clearKey _ fun same => ?_)
    rw [← Bool.not_eq_true]
    exact fun within => spared (by rw [Touches, clears]; exact ⟨same, within⟩)
  · rename_i keeps
    refine counted.trans (untouched_foldl _ (fun result member later => ?_) _)
    obtain ⟨suffix, listed, rfl⟩ := List.mem_map.1 member
    dsimp only
    split
    · rename_i value _
      refine later.untouched_applyAction value keeps (fun adds segment same => spared ?_)
        fun adds same => spared ?_
      · rw [Touches, adds]
        exact ⟨suffix, listed, segment, same⟩
      · unfold Touches
        split
        · contradiction
        · contradiction
        · exact ⟨suffix, listed, same⟩
    · exact later.untouched_refl key

/-- What does not stand at or below the target is not touched. -/
theorem not_touches_of_outside {command : Command.Compiled} {target : Address}
    (outside : key.tree = target.tree → key.path.isWithin target.path = false) :
    ¬network.Touches command target key := by
  have apart : ∀ suffix, key ≠ target.below suffix := by
    rintro suffix rfl
    have within : (target.below suffix).path.isWithin target.path = true :=
      Path.isWithin_append ..
    simp [outside rfl] at within
  unfold Touches
  split
  · rintro ⟨same, within⟩
    simp [outside same] at within
  · rintro ⟨suffix, -, segment, same⟩
    refine apart (suffix ++ [segment]) (same.trans ?_)
    simp [Address.below, Path.child, Path.join]
  · rintro ⟨suffix, -, same⟩
    exact apart suffix same

end ConceptLaws.Propagation.Network
