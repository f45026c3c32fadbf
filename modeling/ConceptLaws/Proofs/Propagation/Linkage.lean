import ConceptLaws.Proofs.Propagation.Change

/-! Edges and triggers.
An edge is kept at the key that waits, and the waiting key is kept among the triggers of its source.
Whatever is called for, between live trees the two tell the same, and both keys stand below keys of
their trees. -/

namespace ConceptLaws.Propagation

/-- A leaf can be erased without a key losing its ancestors. -/
theorem Tree.Rooted.eraseLeaf {tree : Tree} (rooted : tree.Rooted) {path : Path}
    (leaf : tree.descendants path = []) : (tree.erase path).Rooted := by
  intro query cell found above within
  rw [cell?_erase] at found ⊢
  split at found
  · cases found
  rename_i kept
  rw [if_neg]
  · exact rooted query cell found above within
  · rintro ⟨rfl, different⟩
    have lower : (query, cell) ∈ tree.descendants above :=
      Tree.mem_descendants.2 ⟨found, within, fun same => kept ⟨same, different⟩⟩
    simp [leaf] at lower

namespace Network

/-- The same trees are live, and there are the same edges and triggers. -/
structure SameLinks (network later : Network) : Prop where
  arena : network.trees.Sound → later.trees.Sound
  issued : ∀ handle, network.trees.Issued handle → later.trees.Issued handle
  live : ∀ handle, (later.tree? handle).isSome = (network.tree? handle).isSome
  rooted : network.Rooted → later.Rooted
  edges : ∀ waiter source,
    (later.edge? waiter source).isSome = (network.edge? waiter source).isSome
  triggers : ∀ key, later.triggers key = network.triggers key

/-- Edges and triggers are mutual inverses between live trees, and no handle that is still to be
given out occurs in them. -/
structure Mutual (network : Network) : Prop where
  arena : network.trees.Sound
  rooted : network.Rooted
  waits : ∀ {waiter source : Address}, (network.edge? waiter source).isSome →
    network.trees.Issued source.tree ∧
      ((network.tree? source.tree).isSome → waiter ∈ network.triggers source)
  tells : ∀ {waiter source : Address}, waiter ∈ network.triggers source →
    network.trees.Issued waiter.tree ∧
      ((network.tree? waiter.tree).isSome → (network.edge? waiter source).isSome)

variable {network later : Network}

theorem Mutual.same (linked : network.Mutual) (same : network.SameLinks later) :
    later.Mutual where
  arena := same.arena linked.arena
  rooted := same.rooted linked.rooted
  waits {waiter source} held := by
    rw [same.edges] at held
    obtain ⟨issued, told⟩ := linked.waits held
    rw [same.live, same.triggers]
    exact ⟨same.issued _ issued, told⟩
  tells {waiter source} member := by
    rw [same.triggers] at member
    obtain ⟨issued, held⟩ := linked.tells member
    rw [same.live, same.edges]
    exact ⟨same.issued _ issued, held⟩

/-! ## Changes that leave the links alone -/

theorem sameLinks_of_trees (trees : later.trees = network.trees) : network.SameLinks later := by
  obtain ⟨otherTrees, agenda, maxSteps, counts, changed⟩ := later
  obtain rfl : otherTrees = network.trees := trees
  exact ⟨id, fun _ => id, fun _ => rfl, id, fun _ _ => rfl, fun _ => rfl⟩

theorem Rooted.updateTree (rooted : network.Rooted) {handle : Handle} {change : Tree → Tree}
    (keeps : ∀ tree : Tree, tree.Rooted → (change tree).Rooted) :
    (network.updateTree handle change).Rooted := by
  intro query tree found
  rw [tree?_updateTree] at found
  split at found
  · obtain ⟨old, live, rfl⟩ := Option.map_eq_some_iff.1 found
    exact keeps old (rooted handle old live)
  · exact rooted query tree found

/-- A change of one tree: what is left to show is about its keys. -/
theorem sameLinks_updateTree {handle : Handle} {change : Tree → Tree}
    (rooted : ∀ tree : Tree, tree.Rooted → (change tree).Rooted)
    (edges : ∀ waiter source, ((network.updateTree handle change).edge? waiter source).isSome =
      (network.edge? waiter source).isSome)
    (triggers : ∀ key, (network.updateTree handle change).triggers key = network.triggers key) :
    network.SameLinks (network.updateTree handle change) where
  arena sound := sound.update handle change
  issued _ issued := issued.update handle change
  live query := network.isSome_tree?_updateTree handle query change
  rooted before := before.updateTree rooted
  edges := edges
  triggers := triggers

theorem sameLinks_ensure (network : Network) (key : Address) :
    network.SameLinks (network.ensure key) :=
  sameLinks_updateTree (fun _ rooted => rooted.ensure key.path)
    (fun waiter source => congrArg _ (network.edge?_ensure key waiter source))
    (network.triggers_ensure key)

theorem sameLinks_updateCell {key : Address} {change : Cell → Cell}
    (waiting : ∀ cell, network.cell? key = some cell → ∀ source : Address,
      (change cell).waiting[source]?.isSome = cell.waiting[source]?.isSome)
    (triggers : ∀ cell, (change cell).triggers = cell.triggers) :
    network.SameLinks (network.updateCell key change) := by
  have cells := fun query => network.cell?_updateCell key query change
  refine sameLinks_updateTree (fun _ rooted => rooted.update key.path change)
    (fun waiter source => ?_) fun query => ?_
  · by_cases same : waiter = key
    · subst same
      have after := cells waiter
      rw [if_pos rfl] at after
      change ((network.updateCell waiter change).edge? waiter source).isSome = _
      unfold edge?
      rw [after]
      cases found : network.cell? waiter with
      | none => rfl
      | some cell => exact waiting cell found source
    · exact congrArg _ (edge?_congr ((cells waiter).trans (if_neg same)))
  · by_cases same : query = key
    · subst same
      have after := cells query
      rw [if_pos rfl] at after
      change (network.updateCell query change).triggers query = _
      unfold Network.triggers
      rw [after]
      cases network.cell? query with
      | none => rfl
      | some cell => exact triggers cell
    · exact triggers_congr ((cells query).trans (if_neg same))

theorem sameLinks_recast (network : Network) (handle : Handle) (role : Role) :
    network.SameLinks (network.updateTree handle fun tree => { tree with role }) :=
  sameLinks_updateTree (fun _ rooted => rooted)
    (fun waiter _ => congrArg _ (edge?_congr (network.cell?_recast handle role waiter)))
    fun key => triggers_congr (network.cell?_recast handle role key)

theorem sameLinks_eraseLeaf {handle : Handle} {path : Path}
    (unlinked : ∀ cell, network.cell? ⟨handle, path⟩ = some cell → cell.isUnlinked = true) :
    network.SameLinks (eraseLeaf handle network path) := by
  refine sameLinks_updateTree (fun tree rooted => ?_) (fun waiter source => ?_) fun key => ?_
  · split
    · rename_i leaf
      exact rooted.eraseLeaf (List.isEmpty_iff.1 leaf)
    · exact rooted
  · change ((eraseLeaf handle network path).edge? waiter source).isSome = _
    rcases cell?_eraseLeaf handle network path waiter with same | ⟨rfl, gone⟩
    · exact congrArg _ (edge?_congr same)
    · unfold edge?
      rw [gone]
      cases found : network.cell? ⟨handle, path⟩ with
      | none => rfl
      | some cell =>
        have free := (Cell.isUnlinked_iff.1 (unlinked cell found)).1 source
        simp [free]
  · change (eraseLeaf handle network path).triggers key = _
    rcases cell?_eraseLeaf handle network path key with same | ⟨rfl, gone⟩
    · exact triggers_congr same
    · unfold triggers
      rw [gone]
      cases found : network.cell? ⟨handle, path⟩ with
      | none => rfl
      | some cell =>
        have free := (Cell.isUnlinked_iff.1 (unlinked cell found)).2
        exact (Std.ExtTreeSet.eq_empty_iff_forall_not_mem.2 free).symm

/-! ## A new edge -/

theorem isSome_edge?_link {waiter source : Address} (callback : Option Callback)
    (waits : (network.cell? waiter).isSome) (key other : Address) :
    ((network.link waiter source callback).edge? key other).isSome = true ↔
      key = waiter ∧ other = source ∨ (network.edge? key other).isSome = true := by
  obtain ⟨cell, found⟩ := Option.isSome_iff_exists.1 waits
  unfold link
  rw [edge?_ensureWith]
  · unfold addEdge edge?
    rw [cell?_updateCell]
    by_cases same : key = waiter
    · subst same
      rw [if_pos rfl, found]
      simp only [Option.map_some, Option.bind_eq_bind, Option.bind_some,
        Std.ExtTreeMap.getElem?_insert, Std.compare_eq_iff_eq]
      by_cases here : source = other
      · simp [here]
      · simp [here, Ne.symm here]
    · simp [same]
  · exact fun _ => rfl

theorem mem_triggers_link (rooted : network.Rooted) {waiter source : Address}
    (callback : Option Callback) (tells : (network.tree? source.tree).isSome)
    (key other : Address) :
    other ∈ (network.link waiter source callback).triggers key ↔
      other = waiter ∧ key = source ∨ other ∈ network.triggers key := by
  have added : (network.addEdge waiter source callback).triggers key = network.triggers key := by
    unfold addEdge triggers
    rw [cell?_updateCell]
    split
    · rename_i same
      rw [same]
      cases network.cell? waiter <;> rfl
    · rfl
  have ensured : ((network.addEdge waiter source callback).ensure source).triggers key =
      network.triggers key := (triggers_ensure _ source key).trans added
  unfold link
  rw [ensureWith_eq]
  unfold triggers at ensured ⊢
  rw [cell?_updateCell]
  by_cases same : key = source
  · subst same
    have live : ((network.addEdge waiter key callback).tree? key.tree).isSome :=
      (network.isSome_tree?_updateTree waiter.tree key.tree _).trans tells
    have rooted : (network.addEdge waiter key callback).Rooted :=
      rooted.updateTree fun _ rooted => rooted.update waiter.path _
    obtain ⟨cell, found⟩ := cell?_ensure_self rooted live
    rw [found, Option.map_some, Option.getD_some] at ensured
    rw [if_pos rfl, found, Option.map_some, Option.map_some, Option.getD_some,
      Std.ExtTreeSet.mem_insert, ensured, Std.compare_eq_iff_eq]
    simp [eq_comm]
  · rw [if_neg same, ensured]
    simp [same]

/-- A new edge is told at both ends. -/
theorem Mutual.link (linked : network.Mutual) {waiter source : Address}
    (callback : Option Callback) (waits : (network.cell? waiter).isSome)
    (tells : (network.tree? source.tree).isSome) :
    (network.link waiter source callback).Mutual := by
  have live (handle : Handle) : ((network.link waiter source callback).tree? handle).isSome =
      (network.tree? handle).isSome :=
    (isSome_tree?_updateTree _ _ _ _).trans (isSome_tree?_updateTree _ _ _ _)
  have issued {handle : Handle} (issued : network.trees.Issued handle) :
      (network.link waiter source callback).trees.Issued handle :=
    (issued.update _ _).update _ _
  obtain ⟨cell, found⟩ := Option.isSome_iff_exists.1 waits
  obtain ⟨waiterTree, waiterLive, -⟩ := cell?_eq_some_iff.1 found
  obtain ⟨sourceTree, sourceLive⟩ := Option.isSome_iff_exists.1 tells
  refine ⟨(linked.arena.update _ _).update _ _, ?_, fun {key other} held => ?_,
    fun {key other} member => ?_⟩
  · refine Rooted.updateTree (linked.rooted.updateTree fun _ rooted => rooted.update _ _) ?_
    exact fun _ rooted => (rooted.ensure _).update _ _
  · rw [live, mem_triggers_link linked.rooted callback tells]
    rcases (isSome_edge?_link callback waits key other).1 held with ⟨rfl, rfl⟩ | before
    · exact ⟨issued (issued_of_tree? sourceLive), fun _ => Or.inl ⟨rfl, rfl⟩⟩
    · obtain ⟨known, told⟩ := linked.waits before
      exact ⟨issued known, fun there => Or.inr (told there)⟩
  · rw [live, isSome_edge?_link callback waits]
    rcases (mem_triggers_link linked.rooted callback tells other key).1 member with
      ⟨rfl, rfl⟩ | before
    · exact ⟨issued (issued_of_tree? waiterLive), fun _ => Or.inl ⟨rfl, rfl⟩⟩
    · obtain ⟨known, held⟩ := linked.tells before
      exact ⟨issued known, fun there => Or.inr (held there)⟩

/-! ## Trees that come and go -/

theorem tree?_create (arena : network.trees.Sound) (role : Role) (query : Handle) :
    (network.create role).2.tree? query =
      if query = (network.create role).1 then some (.ofRole role) else network.tree? query :=
  arena.get?_allocate (.ofRole role) query

/-- A new tree has a root that takes part in no edge. -/
theorem cell?_create_cases (arena : network.trees.Sound) (role : Role) (query : Address) :
    (network.create role).2.cell? query = network.cell? query ∨
      network.cell? query = none ∧ (network.create role).2.cell? query = some (.fresh false) := by
  unfold cell?
  rw [tree?_create arena]
  split
  · rename_i new
    have absent : network.tree? query.tree = none := by
      rw [Option.eq_none_iff_forall_ne_some]
      intro tree live
      exact arena.not_issued_allocate (.ofRole role) (new ▸ issued_of_tree? live)
    simp only [absent, Option.bind_eq_bind, Option.bind_some, Option.bind_none, Tree.cell?_ofRole]
    split
    · exact Or.inr ⟨trivial, rfl⟩
    · exact Or.inl rfl
  · exact Or.inl rfl

theorem Mutual.create (linked : network.Mutual) (role : Role) :
    (network.create role).2.Mutual := by
  have edges (waiter source : Address) : (network.create role).2.edge? waiter source =
      network.edge? waiter source := by
    unfold edge?
    rcases cell?_create_cases linked.arena role waiter with same | ⟨absent, new⟩
    · rw [same]
    · rw [absent, new]
      simp [Cell.fresh]
  have triggers (key : Address) :
      (network.create role).2.triggers key = network.triggers key := by
    unfold Network.triggers
    rcases cell?_create_cases linked.arena role key with same | ⟨absent, new⟩
    · rw [same]
    · rw [absent, new]
      rfl
  have live {handle : Handle} (issued : network.trees.Issued handle) :
      (network.create role).2.tree? handle = network.tree? handle := by
    rw [tree?_create linked.arena, if_neg]
    rintro rfl
    exact linked.arena.not_issued_allocate (.ofRole role) issued
  refine ⟨linked.arena.allocate _, fun handle tree found => ?_, fun {waiter source} held => ?_,
    fun {waiter source} member => ?_⟩
  · rw [tree?_create linked.arena] at found
    split at found
    · obtain rfl := Option.some.inj found
      exact Tree.rooted_ofRole role
    · exact linked.rooted handle tree found
  · rw [edges] at held
    obtain ⟨issued, told⟩ := linked.waits held
    rw [live issued, triggers]
    exact ⟨issued.allocate linked.arena _, told⟩
  · rw [triggers] at member
    obtain ⟨issued, held⟩ := linked.tells member
    rw [live issued, edges]
    exact ⟨issued.allocate linked.arena _, held⟩

/-- Trees may go, as what remains of their edges and triggers is about dead trees. -/
theorem Mutual.fewer (linked : network.Mutual) (arena : later.trees.Sound)
    (issued : ∀ handle, network.trees.Issued handle → later.trees.Issued handle)
    (trees : ∀ handle, later.tree? handle = none ∨ later.tree? handle = network.tree? handle) :
    later.Mutual := by
  have live {handle : Handle} (there : (later.tree? handle).isSome) :
      later.tree? handle = network.tree? handle :=
    (trees handle).resolve_left fun gone => by simp [gone] at there
  have cells {key : Address} (there : (later.tree? key.tree).isSome) :
      later.cell? key = network.cell? key := cell?_congr (live there)
  have holds {key : Address} {cell : Cell} (found : later.cell? key = some cell) :
      (later.tree? key.tree).isSome := by
    obtain ⟨tree, there, -⟩ := cell?_eq_some_iff.1 found
    exact there ▸ rfl
  refine ⟨arena, fun handle tree found => ?_, fun {waiter source} held => ?_,
    fun {waiter source} member => ?_⟩
  · have there : (later.tree? handle).isSome := found ▸ rfl
    exact linked.rooted handle tree ((live there).symm.trans found)
  · obtain ⟨edge, waits⟩ := Option.isSome_iff_exists.1 held
    obtain ⟨cell, found, -⟩ := edge?_eq_some_iff.1 waits
    have before : (network.edge? waiter source).isSome :=
      edge?_congr (cells (holds found)) ▸ held
    obtain ⟨known, told⟩ := linked.waits before
    refine ⟨issued _ known, fun there => ?_⟩
    rw [triggers_congr (cells there)]
    exact told (live there ▸ there)
  · have holds : (later.tree? source.tree).isSome := by
      unfold triggers at member
      cases found : later.cell? source with
      | none => simp [found] at member
      | some cell => exact holds found
    rw [triggers_congr (cells holds)] at member
    obtain ⟨known, held⟩ := linked.tells member
    refine ⟨issued _ known, fun there => ?_⟩
    rw [edge?_congr (cells there)]
    exact held (live there ▸ there)

/-! ## Whatever is called for -/

/-- What one elementary change preserves. -/
theorem Mutual.change (linked : network.Mutual) (change : network.Change later) :
    later.Mutual := by
  cases change with
  | bookkeeping trees => exact linked.same (sameLinks_of_trees trees)
  | ensure key => exact linked.same (network.sameLinks_ensure key)
  | state key change waiting triggers =>
    exact linked.same (sameLinks_updateCell (fun cell _ source => by rw [waiting]) triggers)
  | @satisfied waiter source edge held =>
    refine linked.same (sameLinks_updateCell (fun cell found other => ?_) fun _ => rfl)
    simp only [edge?, found, Option.bind_eq_bind, Option.bind_some] at held
    rw [Std.ExtTreeMap.getElem?_insert]
    simp only [Std.compare_eq_iff_eq]
    split
    · rename_i same
      simp [← same, held]
    · rfl
  | lowered key =>
    refine linked.same (sameLinks_updateCell (fun cell _ source => ?_) fun _ => rfl)
    simp [Cell.deactivated]
  | role handle role => exact linked.same (network.sameLinks_recast handle role)
  | erased handle path unlinked => exact linked.same (sameLinks_eraseLeaf unlinked)
  | linked callback waits tells _ => exact linked.link callback waits tells
  | created role => exact linked.create role
  | removed handle =>
    refine linked.fewer (linked.arena.deallocate handle)
      (fun query issued => issued.deallocate handle) fun query => ?_
    rw [tree?_remove]
    split
    · exact Or.inl rfl
    · exact Or.inr rfl
  | cleared =>
    exact linked.fewer linked.arena.clear (fun _ issued => issued.clear)
      fun handle => Or.inl (network.trees.get?_clear handle)

theorem Mutual.changes (linked : network.Mutual) (changes : network.Changes later) :
    later.Mutual := by
  induction changes with
  | refl => exact linked
  | tail _ change ih => exact ih.change change

theorem mutual_empty (maxSteps : Nat) : (empty maxSteps).Mutual := by
  have dead (handle : Handle) : (empty maxSteps).tree? handle = none := rfl
  refine ⟨Arena.sound_empty, fun handle tree live => ?_, fun held => ?_, fun member => ?_⟩
  · simp [dead] at live
  · simp [edge?, cell?, dead] at held
  · simp [triggers, cell?, dead] at member

end Network

end ConceptLaws.Propagation

namespace ConceptLaws.Command

open Propagation Propagation.Network

/-- From an empty network on, whatever is called for: between keys of live trees, one waits on the
other exactly if the other has it among its triggers, and then both keys are there with all keys
above them. -/
theorem edges_told (maxSteps : Nat) (calls : List Call) {waiter source : Address}
    (waiterLive : ((performCalls (empty maxSteps) calls).tree? waiter.tree).isSome)
    (sourceLive : ((performCalls (empty maxSteps) calls).tree? source.tree).isSome) :
    ((∃ edge, (performCalls (empty maxSteps) calls).edge? waiter source = some edge) ↔
      waiter ∈ (performCalls (empty maxSteps) calls).triggers source) ∧
    ((∃ edge, (performCalls (empty maxSteps) calls).edge? waiter source = some edge) →
      ∀ key ∈ [waiter, source], ∀ above, key.path.isWithin above = true →
        ((performCalls (empty maxSteps) calls).cell? ⟨key.tree, above⟩).isSome) := by
  have linked : (performCalls (empty maxSteps) calls).Mutual :=
    (mutual_empty maxSteps).changes (changes_performCalls calls (empty maxSteps))
  generalize performCalls (empty maxSteps) calls = final at linked waiterLive sourceLive ⊢
  have told : (∃ edge, final.edge? waiter source = some edge) ↔
      waiter ∈ final.triggers source := by
    rw [← Option.isSome_iff_exists]
    exact ⟨fun held => (linked.waits held).2 sourceLive,
      fun member => (linked.tells member).2 waiterLive⟩
  refine ⟨told, fun held => ?_⟩
  have rooted {key : Address} {cell : Cell} (found : final.cell? key = some cell) (above : Path)
      (within : key.path.isWithin above = true) : (final.cell? ⟨key.tree, above⟩).isSome := by
    obtain ⟨tree, live, present⟩ := cell?_eq_some_iff.1 found
    have there : final.cell? ⟨key.tree, above⟩ = tree.cell? above := cell?_of_tree? live
    rw [there]
    exact linked.rooted _ tree live key.path cell present above within
  obtain ⟨cell, waits, -⟩ := edge?_eq_some_iff.1 held.choose_spec
  obtain ⟨other, tells⟩ : ∃ other, final.cell? source = some other := by
    have member := told.1 held
    unfold Network.triggers at member
    cases found : final.cell? source with
    | none => simp [found] at member
    | some other => exact ⟨other, rfl⟩
  intro key endpoint above within
  rcases List.mem_pair.1 endpoint with rfl | rfl
  · exact rooted waits above within
  · exact rooted tells above within

/-- A key waits on a key of another tree and on one of a tree that is removed, and is switched on
and off again. -/
def relinked : List Call :=
  [.create .plain, .create .plain, .create .plain,
    .wait ⟨⟨0, 0⟩, ["w"]⟩ ⟨⟨1, 0⟩, ["s", "t"]⟩ (some .bindTarget),
    .wait ⟨⟨0, 0⟩, ["w"]⟩ ⟨⟨2, 0⟩, ["s"]⟩ none, .remove ⟨2, 0⟩, .activate ⟨⟨0, 0⟩, ["w"]⟩,
    .know ⟨⟨1, 0⟩, ["s", "t"]⟩ false, .deactivate ⟨⟨0, 0⟩, ["w"]⟩]

theorem edges_told_relinked :
    ((performCalls (empty 16) relinked).tree? ⟨0, 0⟩).isSome = true ∧
    ((performCalls (empty 16) relinked).tree? ⟨1, 0⟩).isSome = true ∧
    ⟨⟨0, 0⟩, ["w"]⟩ ∈ (performCalls (empty 16) relinked).triggers ⟨⟨1, 0⟩, ["s", "t"]⟩ ∧
    ((performCalls (empty 16) relinked).cell? ⟨⟨1, 0⟩, ["s"]⟩).isSome = true := by
  have states : ((performCalls (empty 16) relinked).tree? ⟨0, 0⟩).isSome = true ∧
      ((performCalls (empty 16) relinked).tree? ⟨1, 0⟩).isSome = true ∧
      ((performCalls (empty 16) relinked).edge? ⟨⟨0, 0⟩, ["w"]⟩ ⟨⟨1, 0⟩, ["s", "t"]⟩).isSome =
        true := by
    simp only [performCalls, relinked, List.foldl_cons, List.foldl_nil, Call.perform, activate_eq]
    decide +kernel
  obtain ⟨waiterLive, sourceLive, waits⟩ := states
  obtain ⟨told, rooted⟩ := @edges_told 16 relinked ⟨⟨0, 0⟩, ["w"]⟩ ⟨⟨1, 0⟩, ["s", "t"]⟩ waiterLive
    sourceLive
  have held := Option.isSome_iff_exists.1 waits
  exact ⟨waiterLive, sourceLive, told.1 held, rooted held ⟨⟨1, 0⟩, ["s", "t"]⟩ (by simp) ["s"]
    (by decide)⟩

end ConceptLaws.Command
