import ConceptLaws.Proofs.Propagation.Linkage
import ConceptLaws.Proofs.Propagation.Walk
import Mathlib.Data.List.TakeWhile

/-! Activation is closed.
What lies below an active key is active, and so are the sources that it waits on, whenever keys and
edges appear: new keys inherit, a key below an active one becomes active by waiting, and what is
activated is walked to the end. Only variables are activated by themselves. -/

namespace ConceptLaws.Propagation

/-! ## Trees -/

namespace Tree

/-- What lies below an active key is active; of a table of variables this is said of the variables
alone. -/
def Downward (tree : Tree) : Prop :=
  ∀ above upper path lower, tree.cell? above = some upper → upper.active = true →
    path.isWithin above = true → tree.cell? path = some lower →
      (tree.role.isVariables = true → path.length ≤ 1) → lower.active = true

/-- A new key takes its activity from a key between the path that is added and any key above it. -/
theorem inheritsActive_of_absent {tree : Tree} (rooted : tree.Rooted) {path query above : Path}
    {upper : Cell} (absent : tree.cell? query = none) (below : path.isWithin query = true)
    (within : query.isWithin above = true) (found : tree.cell? above = some upper)
    (between : ∀ middle cell, query.isWithin middle = true → middle.isWithin above = true →
      tree.cell? middle = some cell → cell.active = true) : tree.inheritsActive path = true := by
  unfold inheritsActive
  cases closest : path.ancestry.findSome? tree.cell? with
  | none =>
    have gone := List.findSome?_eq_none_iff.1 closest above
      (Path.mem_ancestry.2 (Path.isWithin_trans below within))
    simp [found] at gone
  | some nearest =>
    obtain ⟨lowerPaths, upperPaths, split, member, inside⟩ :=
      Path.exists_ancestry_eq_append (Path.isWithin_trans below within)
    have near : lowerPaths.findSome? tree.cell? = some nearest := by
      rw [split, List.findSome?_append] at closest
      cases first : lowerPaths.findSome? tree.cell? with
      | some cell => simpa [first] using closest
      | none =>
        have gone := List.findSome?_eq_none_iff.1 first above member
        simp [found] at gone
    obtain ⟨middle, listed, present⟩ := List.exists_of_findSome?_eq_some near
    have ancestor : path.isWithin middle = true :=
      Path.mem_ancestry.1 (split ▸ List.mem_append_left _ listed)
    have higher : query.isWithin middle = true := by
      refine (Path.isWithin_total below ancestor).resolve_right fun lower => ?_
      have there := rooted middle nearest present query lower
      simp [absent] at there
    exact between middle nearest higher (inside middle listed) present

theorem Downward.ensure {tree : Tree} (down : tree.Downward) (rooted : tree.Rooted)
    (path : Path) : (tree.ensure path).Downward := by
  intro above upper query lower foundUpper active within foundLower single
  rcases cell?_of_ensure rooted foundLower with old | ⟨absent, below, rfl⟩
  · rcases cell?_of_ensure rooted foundUpper with oldUpper | ⟨gone, -⟩
    · exact down above upper query lower oldUpper active within old single
    · have present := rooted query lower old above within
      simp [gone] at present
  · rcases cell?_of_ensure rooted foundUpper with oldUpper | ⟨-, -, rfl⟩
    · refine inheritsActive_of_absent rooted absent below within oldUpper
        fun middle cell higher inside found => ?_
      refine down above upper middle cell oldUpper active inside found fun tabled => ?_
      exact (Path.isWithin_iff.1 higher).length_le.trans (single tabled)
    · exact active

theorem Downward.update {tree : Tree} (down : tree.Downward) (path : Path) {change : Cell → Cell}
    (same : ∀ cell, (change cell).active = cell.active) : (tree.update path change).Downward := by
  have before : ∀ query cell, (tree.update path change).cell? query = some cell →
      ∃ old, tree.cell? query = some old ∧ cell.active = old.active := by
    intro query cell found
    rw [cell?_update] at found
    split at found
    · rename_i here
      obtain ⟨old, present, rfl⟩ := Option.map_eq_some_iff.1 found
      exact ⟨old, here ▸ present, same old⟩
    · exact ⟨cell, found, rfl⟩
  intro above upper query lower foundUpper active within foundLower single
  obtain ⟨oldUpper, presentUpper, sameUpper⟩ := before above upper foundUpper
  obtain ⟨oldLower, presentLower, sameLower⟩ := before query lower foundLower
  rw [sameLower]
  exact down above oldUpper query oldLower presentUpper (sameUpper ▸ active) within presentLower
    single

/-- Above a variable there is only the root, and below it there are no variables. -/
theorem Downward.updateVariable {tree : Tree} (down : tree.Downward)
    (tabled : tree.role.isVariables = true) {path : Path} (lower : path ≠ Path.root) :
    (tree.update path fun cell => { cell with active := true }).Downward := by
  have kept : ∀ query cell, (tree.update path fun cell => { cell with active := true }).cell? query =
      some cell → query ≠ path → tree.cell? query = some cell := by
    intro query cell found different
    rwa [cell?_update, if_neg different] at found
  intro above upper query cell foundUpper active within found single
  by_cases same : query = path
  · rw [cell?_update, if_pos same] at found
    obtain ⟨old, -, rfl⟩ := Option.map_eq_some_iff.1 found
    rfl
  · have oldUpper : tree.cell? above = some upper := by
      refine kept above upper foundUpper fun here => same ?_
      have short := (Path.isWithin_iff.1 within).length_le
      have bound : query.length ≤ 1 := single tabled
      have some_ : 0 < path.length := List.length_pos_iff.2 lower
      subst here
      exact ((Path.isWithin_iff.1 within).eq_of_length (by omega)).symm
    exact down above upper query cell oldUpper active within (kept query cell found same) single

theorem Downward.raise {tree : Tree} (down : tree.Downward) (top : Path) :
    (tree.raise top).Downward := by
  intro above upper query lower foundUpper active within foundLower single
  rw [cell?_raise] at foundUpper foundLower
  obtain ⟨oldUpper, presentUpper, rfl⟩ := Option.map_eq_some_iff.1 foundUpper
  obtain ⟨oldLower, presentLower, rfl⟩ := Option.map_eq_some_iff.1 foundLower
  by_cases inside : query.isWithin top = true
  · simp [inside]
  · have outside : ¬above.isWithin top = true := fun upward =>
      inside (Path.isWithin_trans within upward)
    simp only [outside, inside, Bool.false_eq_true, ↓reduceIte] at active ⊢
    exact down above oldUpper query oldLower presentUpper active within presentLower single

theorem Downward.erase {tree : Tree} (down : tree.Downward) (path : Path) :
    (tree.erase path).Downward := by
  have kept : ∀ query cell, (tree.erase path).cell? query = some cell →
      tree.cell? query = some cell := by
    intro query cell found
    rw [cell?_erase] at found
    split at found
    · cases found
    · exact found
  intro above upper query lower foundUpper active within foundLower single
  rw [role_erase] at single
  exact down above upper query lower (kept above upper foundUpper) active within
    (kept query lower foundLower) single

theorem downward_ofRole (role : Role) : (ofRole role).Downward := by
  intro above upper query lower foundUpper active
  rw [cell?_ofRole] at foundUpper
  split at foundUpper
  · obtain rfl := Option.some.inj foundUpper
    simp [Cell.fresh] at active
  · cases foundUpper

end Tree

/-! ## Networks -/

namespace Network

/-- Whether a handle leads to a table of variables. -/
def isTable (network : Network) (handle : Handle) : Bool :=
  ((network.tree? handle).map fun tree => tree.role.isVariables).getD false

/-- What lies below an active key is active, and what an active key waits on is active or owed.
Nothing is said of what the keys in tables of variables wait on. -/
structure Covered (network : Network) (owed : Address → Prop) : Prop where
  linked : network.Mutual
  downward : ∀ handle tree, network.tree? handle = some tree → tree.Downward
  sources : ∀ {waiter source : Address}, network.isActive waiter = true →
    network.isTable waiter.tree = false → (network.edge? waiter source).isSome →
      (network.tree? source.tree).isSome → network.isActive source = true ∨ owed source

variable {network later : Network} {owed : Address → Prop}

theorem isActive_congr {key : Address} (same : later.cell? key = network.cell? key) :
    later.isActive key = network.isActive key := by
  unfold isActive
  rw [same]

/-- The links stay. A key becomes active only if it waits on nothing or belongs to a table, and a
key that others wait on does not cease to be active. -/
theorem Covered.same (covered : network.Covered owed) (same : network.SameLinks later)
    (downward : ∀ handle tree, later.tree? handle = some tree → tree.Downward)
    (tables : ∀ handle, later.isTable handle = network.isTable handle)
    (wakes : ∀ key, later.isActive key = true → network.isActive key = true ∨
      network.isTable key.tree = true ∨ ∀ source, (network.edge? key source).isSome = false)
    (keeps : ∀ key, network.isActive key = true → (∃ waiter, waiter ∈ network.triggers key) →
      later.isActive key = true) : later.Covered owed := by
  refine ⟨covered.linked.same same, downward, fun {waiter source} active plain waits live => ?_⟩
  rw [same.edges] at waits
  rw [same.live] at live
  rw [tables] at plain
  rcases wakes waiter active with before | tabled | bare
  · refine (covered.sources before plain waits live).imp_left fun awake => ?_
    exact keeps source awake ⟨waiter, (covered.linked.waits waits).2 live⟩
  · simp [tabled] at plain
  · simp [bare source] at waits

theorem downward_updateTree (down : ∀ handle tree, network.tree? handle = some tree →
      tree.Downward) {handle : Handle} {change : Tree → Tree}
    (keeps : ∀ tree, network.tree? handle = some tree → tree.Downward → (change tree).Downward) :
    ∀ query tree, (network.updateTree handle change).tree? query = some tree →
      tree.Downward := by
  intro query tree found
  rw [tree?_updateTree] at found
  split at found
  · obtain ⟨old, live, rfl⟩ := Option.map_eq_some_iff.1 found
    exact keeps old live (down handle old live)
  · exact down query tree found

theorem isTable_updateTree {handle : Handle} {change : Tree → Tree}
    (keeps : ∀ tree, network.tree? handle = some tree →
      (change tree).role.isVariables = tree.role.isVariables) (query : Handle) :
    (network.updateTree handle change).isTable query = network.isTable query := by
  unfold isTable
  rw [tree?_updateTree]
  split
  · rename_i same
    rw [same]
    cases live : network.tree? handle with
    | none => rfl
    | some tree => exact keeps tree live
  · rfl

theorem isTable_ensure (network : Network) (key : Address) (query : Handle) :
    (network.ensure key).isTable query = network.isTable query :=
  isTable_updateTree (fun tree _ => by rw [Tree.role_ensure]) query

theorem isActive_ensure (key : Address) {query : Address} (active : network.isActive query = true) :
    (network.ensure key).isActive query = true := by
  rcases network.cell?_ensure_cases key query with same | ⟨absent, -⟩
  · rwa [isActive_congr same]
  · simp [isActive, absent] at active

theorem Covered.ensure (covered : network.Covered owed) (key : Address) :
    (network.ensure key).Covered owed := by
  refine covered.same (network.sameLinks_ensure key)
    (downward_updateTree covered.downward fun tree live down =>
      down.ensure (covered.linked.rooted _ tree live) key.path)
    (network.isTable_ensure key) (fun query active => ?_)
    fun query active _ => isActive_ensure key active
  rcases network.cell?_ensure_cases key query with same | ⟨absent, -⟩
  · exact Or.inl (isActive_congr same ▸ active)
  · exact Or.inr (Or.inr fun source => by simp [edge?, absent])

theorem isActive_updateCell (network : Network) (key : Address) (change : Cell → Cell)
    (same : ∀ cell, (change cell).active = cell.active) (query : Address) :
    (network.updateCell key change).isActive query = network.isActive query := by
  unfold isActive
  rw [cell?_updateCell]
  split
  · rename_i here
    rw [here, Option.map_map]
    exact congrArg (fun active => ((network.cell? key).map active).getD false) (funext same)
  · rfl

theorem Covered.updateCell (covered : network.Covered owed) {key : Address}
    {change : Cell → Cell} (active : ∀ cell, (change cell).active = cell.active)
    (waiting : ∀ cell, network.cell? key = some cell → ∀ source : Address,
      (change cell).waiting[source]?.isSome = cell.waiting[source]?.isSome)
    (triggers : ∀ cell, (change cell).triggers = cell.triggers) :
    (network.updateCell key change).Covered owed := by
  refine covered.same (sameLinks_updateCell waiting triggers)
    (downward_updateTree covered.downward fun tree _ down => down.update key.path active)
    (isTable_updateTree fun _ _ => rfl) (fun query awake => Or.inl ?_) fun query awake _ => ?_
  · rwa [isActive_updateCell network key change active] at awake
  · rwa [isActive_updateCell network key change active]

theorem Covered.raised (covered : network.Covered owed) {key : Address}
    (lower : key.path ≠ Path.root)
    (tabled : ∀ tree, network.tree? key.tree = some tree → tree.role.isVariables = true) :
    (network.updateCell key fun cell => { cell with active := true }).Covered owed := by
  have elsewhere (query : Address) (different : query ≠ key) :
      (network.updateCell key fun cell => { cell with active := true }).isActive query =
        network.isActive query := by
    refine isActive_congr ?_
    rw [cell?_updateCell, if_neg different]
  refine covered.same (sameLinks_updateCell (fun _ _ _ => rfl) fun _ => rfl)
    (downward_updateTree covered.downward fun tree live down =>
      down.updateVariable (tabled tree live) lower)
    (isTable_updateTree fun _ _ => rfl) (fun query awake => ?_) fun query awake _ => ?_
  · by_cases here : query = key
    · subst here
      obtain ⟨cell, found, -⟩ := isActive_iff.1 awake
      rw [cell?_updateCell, if_pos rfl] at found
      obtain ⟨old, present, -⟩ := Option.map_eq_some_iff.1 found
      obtain ⟨tree, live, -⟩ := cell?_eq_some_iff.1 present
      exact Or.inr (Or.inl (by simp [isTable, live, tabled tree live]))
    · exact Or.inl (elsewhere query here ▸ awake)
  · by_cases here : query = key
    · subst here
      obtain ⟨cell, found, -⟩ := isActive_iff.1 awake
      refine isActive_iff.2 ⟨{ cell with active := true }, ?_, rfl⟩
      rw [cell?_updateCell, if_pos rfl, found]
      rfl
    · rwa [elsewhere query here]

theorem Covered.recast (covered : network.Covered owed) (handle : Handle) {role : Role}
    (same : ∀ tree, network.tree? handle = some tree →
      role.isVariables = tree.role.isVariables) :
    (network.updateTree handle fun tree => { tree with role }).Covered owed := by
  have active (query : Address) := isActive_congr (network.cell?_recast handle role query)
  refine covered.same (network.sameLinks_recast handle role)
    (downward_updateTree covered.downward fun tree live down => ?_)
    (isTable_updateTree same) (fun query awake => Or.inl (active query ▸ awake))
    fun query awake _ => (active query).trans awake
  intro above upper query lower foundUpper raised within foundLower single
  exact down above upper query lower foundUpper raised within foundLower
    fun tabled => single ((same tree live).trans tabled)

theorem Covered.erased (covered : network.Covered owed) {handle : Handle} {path : Path}
    (unlinked : ∀ cell, network.cell? ⟨handle, path⟩ = some cell → cell.isUnlinked = true) :
    (eraseLeaf handle network path).Covered owed := by
  refine covered.same (sameLinks_eraseLeaf unlinked)
    (downward_updateTree covered.downward fun tree _ down => ?_)
    (isTable_updateTree fun tree _ => ?_) (fun query awake => ?_) fun query awake told => ?_
  · split
    · exact down.erase path
    · exact down
  · split
    · rw [Tree.role_erase]
    · rfl
  · rcases cell?_eraseLeaf handle network path query with same | ⟨-, gone⟩
    · exact Or.inl (isActive_congr same ▸ awake)
    · simp [isActive, gone] at awake
  · rcases cell?_eraseLeaf handle network path query with same | ⟨rfl, -⟩
    · rwa [isActive_congr same]
    · obtain ⟨waiter, member⟩ := told
      obtain ⟨cell, found, -⟩ := isActive_iff.1 awake
      simp only [triggers, found, Option.map_some, Option.getD_some] at member
      exact absurd member ((Cell.isUnlinked_iff.1 (unlinked cell found)).2 waiter)

/-! ## Walks -/

theorem Covered.mono (covered : network.Covered owed) {more : Address → Prop}
    (weaker : ∀ source, owed source → more source) : network.Covered more :=
  ⟨covered.linked, covered.downward, fun active plain waits live =>
    (covered.sources active plain waits live).imp_right (weaker _)⟩

theorem Covered.of_trees (covered : network.Covered owed) (trees : later.trees = network.trees) :
    later.Covered owed := by
  obtain ⟨otherTrees, agenda, maxSteps, counts, changed⟩ := later
  obtain rfl : otherTrees = network.trees := trees
  exact ⟨covered.linked.same (sameLinks_of_trees rfl), covered.downward, covered.sources⟩

/-- On a walk only what is on the stack and was not walked yet is owed. -/
structure Walking (walk : ActivationWalk) : Prop where
  covered : walk.network.Covered fun source => source ∈ walk.stack ∧ source ∉ walk.seen
  seen : ∀ key ∈ walk.seen, (walk.network.tree? key.tree).isSome →
    walk.network.isActive key = true

theorem isActive_activateSubtree {walk : ActivationWalk} {key query : Address}
    (active : walk.network.isActive query = true) :
    (activateSubtree walk key).network.isActive query = true := by
  obtain ⟨cell, found, raised⟩ := isActive_iff.1 (isActive_ensure key active)
  refine isActive_iff.2 ⟨_, by rw [cell?_activateSubtree, found]; rfl, ?_⟩
  dsimp only
  split
  · rfl
  · exact raised

theorem isActive_activateSubtree_self {walk : ActivationWalk} {key : Address}
    (rooted : walk.network.Rooted) (live : (walk.network.tree? key.tree).isSome) :
    (activateSubtree walk key).network.isActive key = true := by
  obtain ⟨cell, found⟩ := cell?_ensure_self rooted live
  refine isActive_iff.2 ⟨_, by rw [cell?_activateSubtree, found]; rfl, ?_⟩
  dsimp only
  rw [if_pos ⟨rfl, Path.isWithin_refl key.path⟩]

theorem isSome_tree?_activateSubtree (walk : ActivationWalk) (key : Address) (handle : Handle) :
    ((activateSubtree walk key).network.tree? handle).isSome =
      (walk.network.tree? handle).isSome := by
  rw [activateSubtree_network]
  exact (isSome_tree?_updateTree _ _ _ _).trans (isSome_tree?_updateTree _ _ _ _)

theorem isTable_activateSubtree (walk : ActivationWalk) (key : Address) (handle : Handle) :
    (activateSubtree walk key).network.isTable handle = walk.network.isTable handle := by
  rw [activateSubtree_network, isTable_updateTree fun tree _ => by rw [Tree.role_raise]]
  exact isTable_ensure walk.network key handle

/-- Outside the sub-tree only keys are active that were before, if they wait on something. -/
theorem isActive_of_activateSubtree {walk : ActivationWalk} {key waiter source : Address}
    (outside : ¬(waiter.tree = key.tree ∧ waiter.path.isWithin key.path = true))
    (waits : (walk.network.edge? waiter source).isSome)
    (active : (activateSubtree walk key).network.isActive waiter = true) :
    walk.network.isActive waiter = true := by
  obtain ⟨cell, found, raised⟩ := isActive_iff.1 active
  rw [cell?_activateSubtree] at found
  obtain ⟨old, present, rfl⟩ := Option.map_eq_some_iff.1 found
  rw [if_neg outside] at raised
  rcases walk.network.cell?_ensure_cases key waiter with same | ⟨absent, -⟩
  · exact isActive_iff.2 ⟨old, same.symm.trans present, raised⟩
  · simp [edge?, absent] at waits

/-- What is on the stack and was not walked is the next key, or comes after it. -/
theorem mem_of_dropWhile {walk : ActivationWalk} {key source : Address} {rest : List Address}
    (next : walk.stack.dropWhile walk.seen.contains = key :: rest) (listed : source ∈ walk.stack)
    (fresh : source ∉ walk.seen) : source = key ∨ source ∈ rest := by
  rw [← List.takeWhile_append_dropWhile (p := walk.seen.contains) (l := walk.stack), next] at listed
  rcases List.mem_append.1 listed with dropped | ahead
  · have done := List.all_eq_true.1 List.all_takeWhile source dropped
    exact absurd (Std.ExtTreeSet.contains_iff_mem.1 done) fresh
  · exact List.mem_cons.1 ahead

theorem Walking.turn {walk : ActivationWalk} (walking : Walking walk) {key : Address}
    {rest : List Address} (next : walk.stack.dropWhile walk.seen.contains = key :: rest) :
    Walking (activateSubtree { walk with
      stack := rest, seen := walk.seen.insert key } key) := by
  have linked := walking.covered.linked.changes (changes_activateSubtree
    { walk with stack := rest, seen := walk.seen.insert key } key)
  have seen : ∀ other ∈ walk.seen.insert key, (walk.network.tree? other.tree).isSome →
      (activateSubtree { walk with
        stack := rest, seen := walk.seen.insert key } key).network.isActive other = true := by
    intro other member there
    rcases Std.ExtTreeSet.mem_insert.1 member with same | old
    · obtain rfl := Std.LawfulEqCmp.eq_of_compare same
      exact isActive_activateSubtree_self walking.covered.linked.rooted there
    · exact isActive_activateSubtree (walking.seen other old there)
  refine ⟨⟨linked, ?_, fun {waiter source} active plain waits there => ?_⟩, fun other member there => ?_⟩
  · rw [activateSubtree_network]
    exact downward_updateTree (walking.covered.ensure key).downward
      fun tree _ down => down.raise key.path
  · rw [edge?_activateSubtree] at waits
    rw [isTable_activateSubtree] at plain
    rw [isSome_tree?_activateSubtree] at there
    by_cases walked : source ∈ walk.seen.insert key
    · exact Or.inl (seen source walked there)
    rw [seen_activateSubtree]
    by_cases inside : waiter.tree = key.tree ∧ waiter.path.isWithin key.path = true
    · exact Or.inr ⟨mem_stack_activateSubtree.2
        (Or.inr ⟨waiter, inside.1, inside.2, waits⟩), walked⟩
    have before := isActive_of_activateSubtree inside waits active
    refine (walking.covered.sources before plain waits there).imp isActive_activateSubtree
      fun ahead => ⟨mem_stack_activateSubtree.2 (Or.inl ?_), walked⟩
    exact (mem_of_dropWhile next ahead.1 ahead.2).resolve_left fun same =>
      walked (same ▸ Std.ExtTreeSet.mem_insert_self)
  · rw [seen_activateSubtree] at member
    rw [isSome_tree?_activateSubtree] at there
    exact seen other member there

theorem Walks.covered {walk last : ActivationWalk} (walks : Walks walk last)
    (walking : Walking walk) : last.network.Covered fun _ => False := by
  induction walks with
  | @done walk nothing =>
    refine walking.covered.mono fun source ⟨listed, fresh⟩ => fresh ?_
    exact Std.ExtTreeSet.contains_iff_mem.1 (List.dropWhile_eq_nil_iff.1 nothing source listed)
  | turn next onward ih => exact ih (walking.turn next)

/-- What a key owes its walk pays. -/
theorem Covered.activateFrom {key : Address} (covered : network.Covered fun source => source = key) :
    (network.activateFrom key).Covered fun _ => False := by
  have walking : Walking ⟨network, [key], ∅, []⟩ :=
    ⟨covered.mono fun source same => ⟨List.mem_singleton.2 same, by simp⟩,
      fun other member => by simp at member⟩
  exact ((network.walks_activateFrom key).covered walking).of_trees rfl

/-! ## Waiting -/

/-- Below an active parent a key is active already, unless it belongs to a table. -/
theorem Covered.prepareWaiter (covered : network.Covered owed) (waiter : Address) :
    (network.prepareWaiter waiter).Covered owed := by
  have ensured := covered.ensure waiter
  unfold Network.prepareWaiter
  rw [ensureWith_eq]
  cases above : ((waiter.path.parent?.map fun parent =>
      network.isActive ⟨waiter.tree, parent⟩).getD false) with
  | false =>
    exact ensured.updateCell (fun _ => Bool.or_false _) (fun _ _ _ => rfl) fun _ => rfl
  | true =>
    simp only [Bool.or_true]
    cases upper : waiter.path.parent? with
    | none => simp [upper] at above
    | some parent =>
      simp only [upper, Option.map_some, Option.getD_some] at above
      cases tabled : (network.ensure waiter).isTable waiter.tree with
      | true =>
        refine ensured.raised (fun root => ?_) fun tree live => ?_
        · rw [root] at upper
          simp [Path.parent?_root] at upper
        · simpa [isTable, live] using tabled
      | false =>
        rw [updateCell_self fun cell found => ?_]
        · exact ensured
        · obtain ⟨tree, live, present⟩ := cell?_eq_some_iff.1 found
          obtain ⟨parentCell, foundParent, raised⟩ :=
            isActive_iff.1 (isActive_ensure waiter above)
          obtain ⟨other, liveOther, presentParent⟩ := cell?_eq_some_iff.1 foundParent
          obtain rfl : tree = other := Option.some.inj (live.symm.trans liveOther)
          have active : cell.active = true :=
            ensured.downward _ tree live parent parentCell waiter.path cell presentParent raised
              (Path.isWithin_parent upper) present fun table => by
                simp [isTable, live, table] at tabled
          cases cell
          simp_all

theorem isActive_addEdge (network : Network) (waiter source : Address)
    (callback : Option Callback) (key : Address) :
    (network.addEdge waiter source callback).isActive key = network.isActive key :=
  network.isActive_updateCell waiter
    (fun cell => { cell with waiting := cell.waiting.insert source ⟨false, callback⟩ })
    (fun _ => rfl) key

theorem isActive_link {waiter source : Address} {callback : Option Callback} {key : Address}
    (there : (network.cell? key).isSome) :
    (network.link waiter source callback).isActive key = network.isActive key := by
  rw [← network.isActive_addEdge waiter source callback key]
  unfold link
  rw [ensureWith_eq, isActive_updateCell]
  · rcases (network.addEdge waiter source callback).cell?_ensure_cases source key with
      same | ⟨absent, -⟩
    · exact isActive_congr same
    · unfold addEdge at absent
      rw [cell?_updateCell] at absent
      split at absent
      · rename_i here
        subst here
        rw [Option.map_eq_none_iff.1 absent] at there
        simp at there
      · simp [absent] at there
  · exact fun _ => rfl

/-- A new edge leaves its source owed if the waiter is active. -/
theorem Covered.link (covered : network.Covered owed) {waiter source : Address}
    (callback : Option Callback) (waits : (network.cell? waiter).isSome)
    (tells : (network.tree? source.tree).isSome) :
    (network.link waiter source callback).Covered fun other =>
      owed other ∨ other = source ∧ network.isActive waiter = true := by
  have live (handle : Handle) : ((network.link waiter source callback).tree? handle).isSome =
      (network.tree? handle).isSome :=
    (isSome_tree?_updateTree _ _ _ _).trans (isSome_tree?_updateTree _ _ _ _)
  have table (handle : Handle) : (network.link waiter source callback).isTable handle =
      network.isTable handle := by
    have added : (network.addEdge waiter source callback).isTable handle =
        network.isTable handle := isTable_updateTree (fun tree _ => by rw [Tree.role_update]) handle
    rw [← added]
    exact isTable_updateTree (fun tree _ => by rw [Tree.role_update, Tree.role_ensure]) handle
  refine ⟨covered.linked.link callback waits tells, ?_, fun {key other} active plain held there => ?_⟩
  · have added : ∀ handle tree,
        (network.addEdge waiter source callback).tree? handle = some tree → tree.Downward :=
      downward_updateTree covered.downward fun tree _ down => down.update waiter.path fun _ => rfl
    have rooted : (network.addEdge waiter source callback).Rooted :=
      covered.linked.rooted.updateTree fun _ rooted => rooted.update waiter.path _
    exact downward_updateTree added fun tree found down =>
      (down.ensure (rooted _ tree found) source.path).update source.path fun _ => rfl
  · rw [table] at plain
    rw [live] at there
    rcases (isSome_edge?_link callback waits key other).1 held with ⟨rfl, rfl⟩ | before
    · rw [isActive_link waits] at active
      exact Or.inr (Or.inr ⟨rfl, active⟩)
    · have stands {query : Address} (some_ : network.isActive query = true) :
          (network.cell? query).isSome := by
        obtain ⟨cell, found, -⟩ := isActive_iff.1 some_
        exact found ▸ rfl
      obtain ⟨edge, holds⟩ := Option.isSome_iff_exists.1 before
      obtain ⟨cell, found, -⟩ := edge?_eq_some_iff.1 holds
      rw [isActive_link (Option.isSome_iff_exists.2 ⟨cell, found⟩)] at active
      refine (covered.sources active plain before there).imp (fun awake => ?_) Or.inl
      rwa [isActive_link (stands awake)]

theorem Covered.waitOn (covered : network.Covered fun _ => False) (waiter source : Address)
    (callback : Option Callback) :
    (network.waitOn waiter source callback).2.Covered fun _ => False := by
  have prepared := covered.prepareWaiter waiter
  have waited := network.waited_waitOn waiter source callback
  generalize (network.waitOn waiter source callback).2 = later at waited ⊢
  cases waited with
  | stale => exact covered
  | held => exact prepared
  | linked waits tells new trees =>
    have linked := prepared.link callback waits tells
    refine Covered.of_trees ?_ trees
    unfold linkRoused
    split
    · exact (linked.mono fun other owes => owes.elim False.elim And.left).activateFrom
    · rename_i asleep
      refine linked.mono fun other owes => owes.elim id fun ⟨_, awake⟩ => asleep ?_
      exact (isActive_addEdge _ waiter source callback waiter).trans awake

/-! ## Motions and operations -/

theorem Covered.bindCommand (covered : network.Covered fun _ => False) (handle : Handle)
    (source : Address) (callback : Callback) :
    (network.bindCommand handle source callback).Covered fun _ => False := by
  unfold Network.bindCommand
  split
  · exact covered
  split
  · rename_i binding command _ found
    have recast (after : Command.Compiled) :
        (network.setCommand handle after).Covered fun _ => False := by
      refine covered.recast handle fun tree live => ?_
      obtain ⟨other, liveOther, role⟩ := command?_eq_some_iff.1 found
      obtain rfl := Option.some.inj (live.symm.trans liveOther)
      rw [role]
      rfl
    cases callback with
    | bindTarget => exact (recast _).waitOn _ _ _
    | bindBlock place =>
      dsimp only
      split
      · exact covered
      · exact (recast _).waitOn _ _ _
  · exact covered

theorem Covered.satisfy (covered : network.Covered fun _ => False) (waiter source : Address) :
    (network.satisfy waiter source).2.Covered fun _ => False := by
  rw [satisfy_eq_edge?]
  split
  · exact covered
  rename_i edge held
  split
  · exact covered
  have satisfied : (network.updateCell waiter fun cell =>
      { cell with waiting := cell.waiting.insert source ⟨true, none⟩ }).Covered fun _ => False := by
    refine covered.updateCell (fun _ => rfl) (fun cell found other => ?_) fun _ => rfl
    simp only [edge?, found, Option.bind_eq_bind, Option.bind_some] at held
    rw [Std.ExtTreeMap.getElem?_insert]
    simp only [Std.compare_eq_iff_eq]
    split
    · rename_i same
      simp [← same, held]
    · rfl
  dsimp only
  split
  · exact satisfied
  · have counted : ((network.updateCell waiter fun cell =>
        { cell with waiting := cell.waiting.insert source ⟨true, none⟩ }).updateCounts fun counts =>
          { counts with callbacks := counts.callbacks + 1 }).Covered fun _ => False :=
      satisfied.of_trees rfl
    exact counted.bindCommand _ _ _

theorem Covered.motion (covered : network.Covered fun _ => False)
    (motion : network.Motion later) : later.Covered fun _ => False := by
  cases motion with
  | bookkeeping trees => exact covered.of_trees trees
  | ensure key => exact covered.ensure key
  | state key change same =>
    exact covered.updateCell (fun cell => (same cell).active)
      (fun cell _ source => by rw [(same cell).waiting]) fun cell => (same cell).triggers
  | raised lower tabled => exact covered.raised lower tabled
  | role handle same => exact covered.recast handle same
  | erased handle path unlinked => exact covered.erased unlinked
  | satisfied waiter source => exact covered.satisfy waiter source

theorem Covered.create (covered : network.Covered fun _ => False) (role : Role) :
    (network.create role).2.Covered fun _ => False := by
  have issued {handle : Handle} (known : network.trees.Issued handle) :
      (network.create role).2.tree? handle = network.tree? handle := by
    rw [tree?_create covered.linked.arena, if_neg]
    rintro rfl
    exact covered.linked.arena.not_issued_allocate (.ofRole role) known
  refine ⟨covered.linked.create role, fun handle tree found => ?_,
    fun {waiter source} active plain waits there => ?_⟩
  · rw [tree?_create covered.linked.arena] at found
    split at found
    · obtain rfl := Option.some.inj found
      exact Tree.downward_ofRole role
    · exact covered.downward handle tree found
  · rcases cell?_create_cases covered.linked.arena role waiter with same | ⟨-, new⟩
    · rw [isActive_congr same] at active
      rw [edge?_congr same] at waits
      obtain ⟨cell, found, -⟩ := isActive_iff.1 active
      obtain ⟨tree, live, -⟩ := cell?_eq_some_iff.1 found
      have known := (covered.linked.waits waits).1
      rw [isTable, issued (issued_of_tree? live)] at plain
      rw [issued known] at there
      refine Or.inl ?_
      have awake := (covered.sources active plain waits there).resolve_right id
      rcases cell?_create_cases covered.linked.arena role source with same | ⟨absent, -⟩
      · rwa [isActive_congr same]
      · simp [isActive, absent] at awake
    · simp [isActive, new, Cell.fresh] at active

theorem Covered.remove (covered : network.Covered fun _ => False) (handle : Handle) :
    (network.remove handle).2.Covered fun _ => False := by
  have kept {query : Handle} (there : ((network.remove handle).2.tree? query).isSome) :
      (network.remove handle).2.tree? query = network.tree? query := by
    rw [tree?_remove] at there ⊢
    split at there
    · cases there
    · rename_i other
      rw [if_neg other]
  refine ⟨covered.linked.change (.removed handle), fun query tree found => ?_,
    fun {waiter source} active plain waits there => ?_⟩
  · exact covered.downward query tree ((kept (found ▸ rfl)).symm.trans found)
  · obtain ⟨cell, found, -⟩ := isActive_iff.1 active
    obtain ⟨tree, live, -⟩ := cell?_eq_some_iff.1 found
    have here := kept (Option.isSome_iff_exists.2 ⟨tree, live⟩)
    rw [isActive_congr (cell?_congr here)] at active
    rw [edge?_congr (cell?_congr here)] at waits
    rw [isTable, here] at plain
    have told := kept there
    rw [told] at there
    rw [isActive_congr (cell?_congr told)]
    exact covered.sources active plain waits there

theorem Covered.shift (covered : network.Covered fun _ => False) (shift : network.Shift later) :
    later.Covered fun _ => False := by
  cases shift with
  | motion motion => exact covered.motion motion
  | waited waiter source callback => exact covered.waitOn waiter source callback
  | roused key => exact (covered.mono fun _ => False.elim).activateFrom
  | created role => exact covered.create role
  | removed handle => exact covered.remove handle

theorem Covered.shifts (covered : network.Covered fun _ => False)
    (shifts : network.Shifts later) : later.Covered fun _ => False := by
  induction shifts with
  | refl => exact covered
  | tail _ shift ih => exact ih.shift shift

theorem covered_empty (maxSteps : Nat) : (empty maxSteps).Covered fun _ => False := by
  have dead (handle : Handle) : (empty maxSteps).tree? handle = none := rfl
  refine ⟨mutual_empty maxSteps, fun handle tree live => ?_, fun active => ?_⟩
  · simp [dead] at live
  · simp [isActive, cell?, dead] at active

/-- Operations other than deactivation shift the network, all with the cascades that they run. -/
theorem Reachable.shifts (reachable : network.Reachable) :
    ∃ maxSteps, Shifts (Network.empty maxSteps) network := by
  induction reachable with
  | empty maxSteps => exact ⟨maxSteps, .refl⟩
  | create _ role ih => exact ih.imp fun _ before => before.tail (.created role)
  | createEntity _ entity concept precedence ih =>
    exact ih.imp fun _ before => before.trans (shifts_createEntity _ entity concept precedence)
  | remove _ handle ih => exact ih.imp fun _ before => before.tail (.removed handle)
  | ensure _ key ih => exact ih.imp fun _ before => before.tail (.motion (.ensure key))
  | wait _ waiter source callback ih =>
    exact ih.imp fun _ before =>
      (before.tail (.waited waiter source callback)).trans (Motions.shifts (moving_drain _))
  | block _ key ih => exact ih.imp fun _ before => before.trans (motions_block _ key).shifts
  | know _ key recursive ih =>
    exact ih.imp fun _ before =>
      before.trans (Motions.shifts (motions_setKnown moving_drain _ key recursive))
  | bind _ variableTable name target ih =>
    exact ih.imp fun _ before =>
      before.trans (Motions.shifts (motions_bindVariable moving_drain _ variableTable name target))
  | editField _ edited ih =>
    exact ih.imp fun _ before => before.trans (motions_editField edited).shifts
  | compile _ context owner source ih =>
    exact ih.imp fun _ before =>
      before.trans (Command.shifts_compileSource context owner source _)
  | activate _ key ih =>
    exact ih.imp fun _ before =>
      (before.tail (.roused key)).trans (Motions.shifts (moving_drain _))
  | checkResolved _ key probe ih =>
    exact ih.imp fun _ before => before.trans (motions_checkResolved _ key probe).shifts
  | settle _ ih =>
    exact ih.imp fun _ before => before.trans
      (Motions.shifts ((motions_updateAgenda _ _).trans (moving_drain _)))

/-- The keys in tables of variables are variables, and none of them waits on anything. -/
def PlainTables (network : Network) : Prop :=
  ∀ key cell, network.cell? key = some cell → network.isTable key.tree = true →
    key.path.length ≤ 1 ∧ cell.waiting.isEmpty = true

/-- Without deactivation, every key below an active key is active, and so is every source in a live
tree that an active key waits on. So whatever an active key waits on can be completed. -/
theorem Reachable.activation_closed (reachable : network.Reachable) (plain : network.PlainTables) :
    (∀ above below, below.tree = above.tree → below.path.isWithin above.path = true →
      network.isActive above = true → (network.cell? below).isSome →
        network.isActive below = true) ∧
    (∀ waiter source, network.isActive waiter = true → (network.edge? waiter source).isSome →
      (network.tree? source.tree).isSome → network.isActive source = true) ∧
    ∀ waiter source cell, network.isActive waiter = true → (network.edge? waiter source).isSome →
      network.cell? source = some cell → cell.active = true := by
  obtain ⟨maxSteps, shifts⟩ := reachable.shifts
  have covered := (covered_empty maxSteps).shifts shifts
  have sources (waiter source : Address) (active : network.isActive waiter = true)
      (waits : (network.edge? waiter source).isSome) (live : (network.tree? source.tree).isSome) :
      network.isActive source = true := by
    obtain ⟨edge, held⟩ := Option.isSome_iff_exists.1 waits
    obtain ⟨cell, found, there⟩ := edge?_eq_some_iff.1 held
    refine (covered.sources active ?_ waits live).resolve_right id
    rw [← Bool.not_eq_true]
    intro tabled
    have nothing := (plain waiter cell found tabled).2
    simp [Std.ExtTreeMap.isEmpty_iff.1 nothing] at there
  refine ⟨fun above below same within active there => ?_, sources,
    fun waiter source cell active waits found => ?_⟩
  · obtain ⟨upper, foundUpper, raised⟩ := isActive_iff.1 active
    obtain ⟨lower, foundLower⟩ := Option.isSome_iff_exists.1 there
    obtain ⟨tree, live, present⟩ := cell?_eq_some_iff.1 foundUpper
    obtain ⟨other, liveOther, presentLower⟩ := cell?_eq_some_iff.1 foundLower
    rw [same] at liveOther
    obtain rfl : tree = other := Option.some.inj (live.symm.trans liveOther)
    refine isActive_iff.2 ⟨lower, foundLower, covered.downward _ tree live above.path upper
      below.path lower present raised within presentLower fun tabled => ?_⟩
    exact (plain below lower foundLower (by simp [isTable, same, live, tabled])).1
  · obtain ⟨tree, live, -⟩ := cell?_eq_some_iff.1 found
    have awake := sources waiter source active waits (live ▸ rfl)
    simpa [isActive, found] using awake

theorem plainTables_of_cells (passed : (network.cells.all fun entry =>
    !network.isTable entry.1.tree ||
      (decide (entry.1.path.length ≤ 1) && entry.2.waiting.isEmpty)) = true) :
    network.PlainTables := by
  intro key cell found tabled
  have tested := List.all_eq_true.1 passed (key, cell)
    ((network.tabulates_cells.mem key cell).2 found)
  simpa [tabled] using tested

/-- A key is activated before a key below it waits on a variable of another tree, and before that
variable is bound. -/
def lively : Network :=
  let network := ((empty 16).create .plain).2.create (.variableTable ⟨none, ∅⟩) |>.2
  ((network.activate ⟨⟨0, 0⟩, ["a"]⟩).wait ⟨⟨0, 0⟩, ["a", "b"]⟩ ⟨⟨1, 0⟩, ["x"]⟩ none).2.bind ⟨1, 0⟩
    "x" ⟨⟨0, 0⟩, ["c"]⟩

theorem reachable_lively : lively.Reachable :=
  ((((Reachable.empty 16).create .plain).create (.variableTable ⟨none, ∅⟩)).activate
    ⟨⟨0, 0⟩, ["a"]⟩).wait ⟨⟨0, 0⟩, ["a", "b"]⟩ ⟨⟨1, 0⟩, ["x"]⟩ none |>.bind ⟨1, 0⟩ "x"
      ⟨⟨0, 0⟩, ["c"]⟩

theorem activation_closed_lively :
    lively.PlainTables ∧ lively.isActive ⟨⟨0, 0⟩, ["a", "b"]⟩ = true ∧
      lively.isActive ⟨⟨1, 0⟩, ["x"]⟩ = true := by
  have plain : lively.PlainTables := plainTables_of_cells (by decide +kernel)
  obtain ⟨below, sources, -⟩ := reachable_lively.activation_closed plain
  have waiter : lively.isActive ⟨⟨0, 0⟩, ["a", "b"]⟩ = true :=
    below ⟨⟨0, 0⟩, ["a"]⟩ ⟨⟨0, 0⟩, ["a", "b"]⟩ rfl (by decide) (by decide +kernel)
      (by decide +kernel)
  exact ⟨plain, waiter, sources ⟨⟨0, 0⟩, ["a", "b"]⟩ ⟨⟨1, 0⟩, ["x"]⟩ waiter (by decide +kernel)
    (by decide +kernel)⟩

end Network

end ConceptLaws.Propagation
