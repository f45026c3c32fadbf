import ConceptLaws.Proofs.Command.Wiring
import ConceptLaws.Proofs.Propagation.Reachable

/-! Networks as they are put together.
Entities are seeded first and commands are compiled then. As long as nothing is activated nothing is
complete, and every command that is compiled without variables comes out connected. -/

namespace ConceptLaws.Command

open Propagation Propagation.Network

/-! ## Plain commands -/

/-- Neither a variable that is read or written, nor one that is bound. -/
def Reference.isPlain (reference : Reference) : Bool :=
  reference.bind.isNone &&
    match reference.base with
    | .named _ => false
    | .nodes _ => true

def Block.isPlain : Block → Bool
  | .text _ => true
  | .reference value => value.isPlain

def Template.isPlain (template : Template) : Bool :=
  template.target.isPlain && template.expression.blocks.all Block.isPlain

/-- Whether a command is plain; one that cannot be read is left out anyway. -/
def isPlainSource (source : String) : Bool :=
  match Template.parse source with
  | .error _ => true
  | .ok template => template.isPlain

theorem Reference.isPlain_iff {reference : Reference} : reference.isPlain = true ↔
    reference.bind = none ∧ ∃ steps, reference.base = .nodes steps := by
  unfold Reference.isPlain
  cases reference.base <;> simp

theorem Template.isPlain_iff {template : Template} : template.isPlain = true ↔
    template.target.isPlain = true ∧
      ∀ block ∈ template.expression.blocks, block.isPlain = true := by
  simp [Template.isPlain]

/-! ## Seeding -/

/-- Neither commands nor edges, and nothing that is complete. -/
structure Unwired (network : Network) : Prop where
  sound : network.Sound
  vacant : ∀ handle, network.command? handle = none
  quiet : ∀ key cell, network.cell? key = some cell →
    cell.propagated = false ∧ cell.waiting = ∅

theorem unwired_empty (maxSteps : Nat) : Unwired (empty maxSteps) :=
  ⟨sound_empty maxSteps, fun _ => rfl, fun _ _ found => nomatch found⟩

theorem Unwired.create {network : Network} (unwired : Unwired network) {role : Role}
    (ordinary : ∀ command, role ≠ .command command) : Unwired (network.create role).2 := by
  refine ⟨(unwired.sound.advances_create role).sound, fun handle => ?_, fun key cell found => ?_⟩
  · rw [Option.eq_none_iff_forall_ne_some]
    intro command found
    obtain ⟨tree, live, same⟩ := command?_eq_some_iff.1 found
    rw [unwired.sound.tree?_create] at live
    split at live
    · obtain rfl := Option.some.inj live
      exact ordinary command same
    · have before := command?_eq_some_iff.2 ⟨tree, live, same⟩
      simp [unwired.vacant] at before
  · rcases unwired.sound.cell?_of_create found with old | bare
    · exact unwired.quiet key cell old
    · exact ⟨bare.propagated, bare.waiting⟩

theorem Unwired.seed {network : Network} (unwired : Unwired network) (tree : Handle) (path : Path)
    (value : Datum) (known : Bool) : Unwired (network.seed tree path value known) := by
  have ensured := unwired.sound.tame_ensure ⟨tree, path⟩
  have quiet : ∀ key cell, (network.ensure ⟨tree, path⟩).cell? key = some cell →
      cell.propagated = false ∧ cell.waiting = ∅ := by
    intro key cell found
    rcases ensured.origin key cell found with bare | ⟨before, foundBefore, carries⟩
    · exact ⟨bare.propagated, bare.waiting⟩
    · rw [carries.propagated, carries.waiting]
      exact unwired.quiet key before foundBefore
  refine ⟨(unwired.sound.advances_seed tree path value known).sound, fun handle => ?_,
    fun key cell found => ?_⟩ <;> unfold Network.seed at * <;> rw [ensureWith_eq] at *
  · rw [(sameRoles_updateCell _ _ _).command?, ensured.sameRoles.command?, unwired.vacant]
  · rw [cell?_updateCell] at found
    split at found
    · obtain ⟨before, foundBefore, rfl⟩ := Option.map_eq_some_iff.1 found
      exact quiet _ before foundBefore
    · exact quiet key cell found

theorem Unwired.createEntity {network : Network} (unwired : Unwired network) (entity : Entity)
    (concept : Concept) (precedence : Option Nat) :
    Unwired (network.createEntity entity concept precedence).2 := by
  have seeded := network.seeded_createEntity entity concept precedence
  generalize (network.createEntity entity concept precedence).2 = later at *
  induction seeded with
  | none => exact (unwired.create (by simp)).create (by simp)
  | more _ path value known ih => exact ih.seed _ path value known

/-- The trees of the entities that commands are compiled for are there. -/
def Planted (trees : Std.ExtTreeMap EntityId EntityTrees) (network : Network) : Prop :=
  ∀ (id : EntityId) (found : EntityTrees), trees[id]? = some found →
    (network.tree? found.data).isSome

theorem isSome_tree?_evolve {network later : Network} (evolves : network.Evolves later)
    {handle : Handle} (live : (network.tree? handle).isSome) : (later.tree? handle).isSome := by
  obtain ⟨tree, found⟩ := Option.isSome_iff_exists.1 live
  obtain ⟨after, foundAfter, -⟩ := evolves.live handle tree found
  simp [foundAfter]

theorem Planted.evolve {trees : Std.ExtTreeMap EntityId EntityTrees} {network later : Network}
    (planted : Planted trees network) (evolves : network.Evolves later) : Planted trees later :=
  fun id found present => isSome_tree?_evolve evolves (planted id found present)

/-- What is seeded for an entity: its concept and its precedence. -/
structure Seedling where
  entity : Entity
  concept : Concept
  precedence : Option Nat

def plant (field : Std.ExtTreeMap EntityId EntityTrees × Network) (seedling : Seedling) :
    Std.ExtTreeMap EntityId EntityTrees × Network :=
  let (trees, network) :=
    field.2.createEntity seedling.entity seedling.concept seedling.precedence
  (field.1.insert seedling.entity.id trees, network)

/-- Seeds the entities of a list in a new network. -/
def plantAll (maxSteps : Nat) (seedlings : List Seedling) :
    Std.ExtTreeMap EntityId EntityTrees × Network :=
  seedlings.foldl plant (∅, empty maxSteps)

theorem unwired_plant {field : Std.ExtTreeMap EntityId EntityTrees × Network} (seedling : Seedling)
    (before : Unwired field.2 ∧ Planted field.1 field.2) :
    Unwired (plant field seedling).2 ∧
      Planted (plant field seedling).1 (plant field seedling).2 := by
  obtain ⟨unwired, planted⟩ := before
  refine ⟨unwired.createEntity _ _ _, fun id found present => ?_⟩
  have made := unwired.sound.advances_createTrees seedling.entity.id seedling.precedence
  have seeded := field.2.seeded_createEntity seedling.entity seedling.concept seedling.precedence
  have filled := seeded.advances made.sound
  simp only [plant, Std.ExtTreeMap.getElem?_insert, Std.compare_eq_iff_eq] at present ⊢
  split at present
  · obtain rfl := Option.some.inj present
    refine isSome_tree?_evolve filled.evolves ?_
    have data := unwired.sound.advances_create (.data ⟨seedling.entity.id, seedling.precedence⟩)
    have both := data.sound.advances_create (.variableTable ⟨some seedling.entity.id, ∅⟩)
    refine isSome_tree?_evolve both.evolves ?_
    have same : (field.2.createEntity seedling.entity seedling.concept seedling.precedence).1.data =
        (field.2.create (.data ⟨seedling.entity.id, seedling.precedence⟩)).1 := rfl
    rw [same, unwired.sound.tree?_create, if_pos rfl]
    rfl
  · exact isSome_tree?_evolve (made.trans filled).evolves (planted id found present)

theorem unwired_foldl_plant (seedlings : List Seedling)
    {field : Std.ExtTreeMap EntityId EntityTrees × Network}
    (before : Unwired field.2 ∧ Planted field.1 field.2) :
    Unwired (seedlings.foldl plant field).2 ∧
      Planted (seedlings.foldl plant field).1 (seedlings.foldl plant field).2 := by
  induction seedlings generalizing field with
  | nil => exact before
  | cons first rest ih => exact ih (unwired_plant first before)

theorem unwired_plantAll (maxSteps : Nat) (seedlings : List Seedling) :
    Unwired (plantAll maxSteps seedlings).2 ∧
      Planted (plantAll maxSteps seedlings).1 (plantAll maxSteps seedlings).2 :=
  unwired_foldl_plant seedlings
    ⟨unwired_empty maxSteps, fun _ _ present => by simp at present⟩

/-! ## Idle networks -/

/-- Connected commands, none of which has been executed, and nothing complete. -/
structure Idle (network : Network) : Prop extends Wired network where
  quiet : ∀ key, network.isPropagated key = false

theorem Unwired.idle {network : Network} (unwired : Unwired network) : Idle network := by
  have absent : ∀ handle command, network.command? handle ≠ some command :=
    fun handle _ found => by simp [unwired.vacant] at found
  refine ⟨⟨unwired.sound, fun waiter source edge held => ?_, fun handle command found =>
    absurd found (absent handle command), fun handle command _ found =>
    absurd found (absent handle command), fun handle command found =>
    absurd found (absent handle command)⟩, fun key => ?_⟩
  · obtain ⟨cell, found, waits⟩ := edge?_eq_some_iff.1 held
    simp [(unwired.quiet waiter cell found).2] at waits
  · rw [← Bool.not_eq_true, isPropagated_iff]
    rintro ⟨cell, found, done⟩
    simp [(unwired.quiet key cell found).1] at done

/-- Edges without callbacks are made, and every command that is new is connected. -/
theorem Idle.extend {network later : Network} (idle : Idle network) (sound : later.Sound)
    (evolves : network.Evolves later)
    (stride : network.Stride later noKey fun _ _ edge => edge = ⟨false, none⟩)
    (commands : ∀ handle command, later.command? handle = some command →
      network.command? handle = some command ∨
        Joined later handle command ∧ command.executed = false) : Idle later := by
  have quiet : ∀ key, later.isPropagated key = false := by
    intro key
    rw [← Bool.not_eq_true]
    intro done
    rcases stride.propagated key done with before | new
    · simp [idle.quiet] at before
    · exact new
  refine ⟨⟨sound, fun waiter source edge held => ?_, fun handle command found => ?_,
    fun handle command target found writes above within propagated => ?_,
    fun handle command found => ?_⟩, quiet⟩
  · rcases stride.edges waiter source edge held with old | rfl
    · exact idle.silent waiter source edge old
    · rfl
  · rcases commands handle command found with old | ⟨joined, -⟩
    · exact (idle.joined handle command old).later evolves stride command.executed
    · exact joined
  · simp [quiet] at propagated
  · rcases commands handle command found with old | ⟨-, fresh⟩
    · rw [← idle.executed handle command old, quiet, idle.quiet]
    · simp [quiet, fresh]

/-! ## Making edges -/

/-- Only edges without callbacks are made. -/
structure Ties (network later : Network) : Prop where
  advances : network.Advances later
  stride : network.Stride later noKey fun _ _ edge => edge = ⟨false, none⟩
  roles : network.SameRoles later

theorem Ties.trans {first second third : Network} (earlier : Ties first second)
    (later : Ties second third) : Ties first third :=
  ⟨earlier.advances.trans later.advances, earlier.stride.trans later.stride,
    earlier.roles.trans later.roles⟩

theorem ties_refl {network : Network} (sound : network.Sound) : Ties network network :=
  ⟨sound.advances_refl, (stride_refl network).mono (fun _ => id) fun _ _ _ => False.elim,
    fun _ => rfl⟩

theorem ties_waitOn {network : Network} (sound : network.Sound) (waiter source : Address) :
    Ties network (network.waitOn waiter source none).2 := by
  obtain ⟨stride, roles⟩ := sound.stride_waitOn waiter source none
  exact ⟨sound.advances_waitOn waiter source none, stride, roles⟩

theorem ties_block {network : Network} (sound : network.Sound) (key : Address) :
    Ties network (network.block key) := by
  obtain ⟨stride, roles⟩ := sound.stride_ensureWith key
    (fun cell => { cell with blocked := true }) (fun _ => rfl) (fun _ => rfl) fun _ => rfl
  exact ⟨advances_block sound key, stride.mono (fun _ => id) fun _ _ _ => False.elim, roles⟩

theorem ties_foldl_waitOn (root : Address) (keys : List Address) {network : Network}
    (sound : network.Sound) (rootLive : (network.tree? root.tree).isSome)
    (live : ∀ key ∈ keys, (network.tree? key.tree).isSome) :
    Ties network (keys.foldl (fun network key => (network.waitOn root key none).2) network) ∧
      ∀ key ∈ keys,
        (keys.foldl (fun network key => (network.waitOn root key none).2) network).Waits
          root key := by
  induction keys generalizing network with
  | nil => exact ⟨ties_refl sound, by simp⟩
  | cons first rest ih =>
    have tie := ties_waitOn sound root first
    have waits := sound.waits_of_waitOn rootLive (live first (List.mem_cons_self ..)) none
    obtain ⟨ties, later⟩ :=
      ih tie.advances.sound (isSome_tree?_evolve tie.advances.evolves rootLive)
      fun key member => isSome_tree?_evolve tie.advances.evolves
        (live key (List.mem_cons_of_mem first member))
    refine ⟨tie.trans ties, fun key member => ?_⟩
    rcases List.mem_cons.1 member with rfl | member
    · exact waits.evolve ties.advances.evolves
    · exact later key member

/-! ## Drafts -/

/-- The network is left as it is, and all that the blocks read is waited on. -/
structure Faithful (network : Network) (draft : Draft) : Prop where
  unchanged : draft.network = network
  waits : draft.waits = (draft.blocks.flatMap BoundBlock.keys).map fun key => (key, none)
  live : ∀ key ∈ draft.blocks.flatMap BoundBlock.keys, (network.tree? key.tree).isSome

theorem isSome_tree?_of_mem_keysOf {context : Context} {network : Network}
    (planted : Planted context.trees network) {reference : Reference} {owner : EntityId}
    {swapped : Bool} {key : Address} (member : key ∈ context.keysOf reference owner swapped) :
    (network.tree? key.tree).isSome := by
  obtain ⟨id, -, named⟩ := List.mem_filterMap.1 member
  obtain ⟨trees, present, rfl⟩ := Option.map_eq_some_iff.1 named
  exact planted id trees present

variable {context : Context} (owner : EntityId) (trees : EntityTrees) (swapped : Bool)
  {network : Network}

theorem Faithful.addBlock (planted : Planted context.trees network) {draft : Draft}
    (faithful : Faithful network draft) {block : Block × Nat}
    (plain : block.1.isPlain = true) :
    Faithful network (draft.addBlock context owner trees swapped block) := by
  unfold Draft.addBlock
  split
  · refine ⟨faithful.unchanged, ?_, ?_⟩
    · simpa [BoundBlock.keys] using faithful.waits
    · simpa [BoundBlock.keys] using faithful.live
  · rename_i reference same
    rw [same] at plain
    obtain ⟨unbound, steps, stepped⟩ := Reference.isPlain_iff.1 plain
    rw [stepped, unbound]
    refine ⟨faithful.unchanged, ?_, fun key member => ?_⟩
    · simp [BoundBlock.keys, faithful.waits]
    · rw [List.flatMap_append, List.mem_append] at member
      rcases member with old | new
      · exact faithful.live key old
      · exact isSome_tree?_of_mem_keysOf planted (by simpa [BoundBlock.keys] using new)

theorem faithful_foldl_addBlock (planted : Planted context.trees network)
    {blocks : List (Block × Nat)} {draft : Draft} (faithful : Faithful network draft)
    (plain : ∀ block ∈ blocks, block.1.isPlain = true) :
    Faithful network (blocks.foldl (Draft.addBlock context owner trees swapped) draft) := by
  induction blocks generalizing draft with
  | nil => exact faithful
  | cons first rest ih =>
    exact ih (faithful.addBlock owner trees swapped planted (plain first (List.mem_cons_self ..)))
      fun block member => plain block (List.mem_cons_of_mem first member)

/-! ## Commands -/

theorem ties_connect {draft : Draft} (root : Address) {address : Address} (sound : network.Sound)
    (rootLive : (network.tree? root.tree).isSome)
    (addressLive : (network.tree? address.tree).isSome)
    (waits : draft.waits = (draft.blocks.flatMap BoundBlock.keys).map fun key => (key, none))
    (live : ∀ key ∈ draft.blocks.flatMap BoundBlock.keys, (network.tree? key.tree).isSome) :
    Ties network (connect network trees root (.key address) draft) ∧
      (∀ key ∈ draft.blocks.flatMap BoundBlock.keys,
        (connect network trees root (.key address) draft).Waits root key) ∧
      (connect network trees root (.key address) draft).Waits address root := by
  unfold connect
  dsimp only
  have barred : Ties network (if draft.unreachable then network.block root else network) := by
    split
    · exact ties_block sound root
    · exact ties_refl sound
  generalize (if draft.unreachable then network.block root else network) = ready at *
  have still : ∀ {handle : Handle}, (network.tree? handle).isSome → (ready.tree? handle).isSome :=
    isSome_tree?_evolve barred.advances.evolves
  rw [waits, List.foldl_map]
  obtain ⟨ties, held⟩ := ties_foldl_waitOn root (draft.blocks.flatMap BoundBlock.keys)
    barred.advances.sound (still rootLive) fun key member => still (live key member)
  generalize (draft.blocks.flatMap BoundBlock.keys).foldl
    (fun network key => (network.waitOn root key none).2) ready = waiting at *
  have last := ties_waitOn ties.advances.sound address root
  have remain : ∀ {handle : Handle}, (network.tree? handle).isSome →
      (waiting.tree? handle).isSome :=
    fun there => isSome_tree?_evolve ties.advances.evolves (still there)
  exact ⟨(barred.trans ties).trans last, fun key member =>
      (held key member).evolve last.advances.evolves,
    ties.advances.sound.waits_of_waitOn (remain addressLive) (remain rootLive) none⟩

/-- What does not stand at or below a known key is unknown up to the root. -/
theorem isKnown_above_of_isPrimary {address : Address}
    (derived : (Target.key address).isPrimary network = false) (above : Path)
    (within : address.path.isWithin above = true) :
    network.isKnown ⟨address.tree, above⟩ = false := by
  rw [← Bool.not_eq_true, isKnown_iff]
  rintro ⟨cell, found, known⟩
  obtain ⟨tree, live, present⟩ := cell?_eq_some_iff.1 found
  simp only [Target.isPrimary, live, Option.map_some, Option.getD_some, Tree.isUnderKnown,
    List.any_eq_false, Path.mem_ancestry] at derived
  exact derived above within (by simp [present, known])

theorem command?_create (sound : network.Sound) (command : Compiled) (query : Handle) :
    (network.create (.command command)).2.command? query =
      if query = (network.create (.command command)).1 then some command
      else network.command? query := by
  unfold Network.command?
  rw [sound.tree?_create]
  by_cases same : query = (network.create (.command command)).1
  · simp [same, Tree.ofRole]
  · simp [same]

/-- Removing a tree that is new leaves all others as they were. -/
theorem evolves_remove {later : Network} {handle : Handle} (evolves : network.Evolves later)
    (new : ¬network.trees.Issued handle) : network.Evolves (later.remove handle).2 := by
  have other : ∀ {query : Handle}, network.trees.Issued query → query ≠ handle :=
    fun issued same => new (same ▸ issued)
  refine ⟨fun query issued => (evolves.issued query issued).deallocate handle,
    fun query issued stale => ?_, fun query tree live => ?_, fun key cell found linked => ?_⟩
  · rw [tree?_remove, if_neg (other issued), evolves.stale query issued stale]
  · rw [tree?_remove, if_neg (other (Arena.issued_of_get? live))]
    exact evolves.live query tree live
  · obtain ⟨tree, live, -⟩ := cell?_eq_some_iff.1 found
    rw [cell?_remove, if_neg (other (Arena.issued_of_get? live))]
    exact evolves.kept key cell found linked

/-- A command that reads something is connected. -/
theorem Idle.connect (idle : Idle network) {draft : Draft} (faithful : Faithful network draft)
    {template : Template}
    (unbound : template.target.bind = none) {address : Address}
    (live : (network.tree? address.tree).isSome)
    (derived : (Target.key address).isPrimary network = false) :
    let command := compiledOf network owner trees template (.key address) draft.blocks
    let made := network.create (.command command)
    Idle (Command.connect made.2 trees (.ofTree made.1) (.key address) draft) ∧
      network.Evolves (Command.connect made.2 trees (.ofTree made.1) (.key address) draft) := by
  intro command made
  have created := idle.sound.advances_create (.command command)
  have new : ¬network.trees.Issued made.1 := idle.sound.arena.not_issued_allocate _
  have still : ∀ {handle : Handle}, (network.tree? handle).isSome → (made.2.tree? handle).isSome :=
    isSome_tree?_evolve created.evolves
  have root : (made.2.tree? made.1).isSome := by
    rw [idle.sound.tree?_create, if_pos rfl]
    rfl
  obtain ⟨ties, reads, writes⟩ := ties_connect trees (.ofTree made.1) created.sound root
    (still live) faithful.waits fun key member => still (faithful.live key member)
  generalize Command.connect made.2 trees (.ofTree made.1) (.key address) draft = later at *
  have evolves := created.evolves.trans ties.advances.evolves
  have stride := ((idle.sound.stride_create (.command command)).mono (fun _ => id)
    fun _ _ _ => False.elim).trans ties.stride
  refine ⟨idle.extend ties.advances.sound evolves stride fun handle found present => ?_, evolves⟩
  rw [ties.roles.command?, command?_create idle.sound] at present
  split at present
  · rename_i same
    obtain rfl := Option.some.inj present
    subst same
    refine Or.inr ⟨⟨unbound, isKnown_eq_false_of_stride stride ?_,
      fun source member => ?_, fun target same => ?_⟩, rfl⟩
    · rw [← Bool.not_eq_true, isKnown_iff]
      rintro ⟨cell, found, -⟩
      obtain ⟨tree, there, -⟩ := cell?_eq_some_iff.1 found
      exact new (Arena.issued_of_get? there)
    · exact ⟨reads source member, isSome_tree?_evolve evolves (faithful.live source member)⟩
    · obtain rfl := Option.some.inj same
      exact ⟨writes, fun above within =>
        isKnown_eq_false_of_stride stride (isKnown_above_of_isPrimary derived above within)⟩
  · exact Or.inl present

/-- A constant command is executed at once and leaves nothing behind but what it wrote. -/
theorem Idle.executeConstant (idle : Idle network) (command : Compiled)
    (unbound : command.bind = none) :
    let made := network.create (.command command)
    Idle ((made.2.execute drain made.1).remove made.1).2 ∧
      network.Evolves ((made.2.execute drain made.1).remove made.1).2 := by
  intro made
  have created := idle.sound.advances_create (.command command)
  have new : ¬network.trees.Issued made.1 := idle.sound.arena.not_issued_allocate _
  have found : made.2.command? made.1 = some command := by
    rw [command?_create idle.sound, if_pos rfl]
  obtain ⟨ran, runs⟩ := created.sound.stride_execute drain found unbound
  have executed := created.sound.advances_execute orderly_drain made.1
  have evolves := evolves_remove (created.evolves.trans executed.evolves) new
  have stride := ((idle.sound.stride_create (.command command)).trans ran).trans
    (stride_remove (made.2.execute drain made.1) made.1)
  refine ⟨idle.extend (executed.sound.remove made.1) evolves
    (stride.mono (fun _ => id) fun _ _ _ => False.elim)
    fun handle other present => Or.inl ?_, evolves⟩
  obtain ⟨tree, live, role⟩ := command?_eq_some_iff.1 present
  rw [tree?_remove] at live
  split at live
  · simp at live
  · rename_i different
    have before := runs handle
    rw [command?_eq_some_iff.2 ⟨tree, live, role⟩, if_neg, command?_create idle.sound,
      if_neg different] at before
    · exact before.symm
    · exact fun same => different (congrArg Address.tree same)

theorem Idle.instantiate (idle : Idle network) (planted : Planted context.trees network)
    {template : Template} (plain : template.isPlain = true) {address : Address}
    (live : (network.tree? address.tree).isSome) :
    Idle (instantiate context owner trees template swapped network (.key address)) ∧
      network.Evolves
        (instantiate context owner trees template swapped network (.key address)) := by
  unfold Command.instantiate
  split
  · exact ⟨idle, network.evolves_refl⟩
  · rename_i derived
    rw [Bool.not_eq_true] at derived
    dsimp only
    have start : Faithful network ⟨network, [], [], false⟩ := ⟨rfl, rfl, by simp⟩
    obtain ⟨target, blocks⟩ := Template.isPlain_iff.1 plain
    obtain ⟨unbound, -⟩ := Reference.isPlain_iff.1 target
    have faithful := faithful_foldl_addBlock owner trees swapped planted start
      fun block (member : block ∈ template.expression.blocks.zipIdx) =>
        blocks block.1 (List.fst_mem_of_mem_zipIdx member)
    generalize template.expression.blocks.zipIdx.foldl
      (Draft.addBlock context owner trees swapped) ⟨network, [], [], false⟩ = draft at *
    rw [faithful.unchanged]
    split
    · exact idle.executeConstant _ unbound
    · exact idle.connect owner trees faithful unbound live derived

theorem Idle.compileTemplate (idle : Idle network) (planted : Planted context.trees network)
    {template : Template} (plain : template.isPlain = true) :
    Idle (compileTemplate context network owner template swapped).2 ∧
      network.Evolves (compileTemplate context network owner template swapped).2 := by
  unfold Command.compileTemplate
  split
  · exact ⟨idle, network.evolves_refl⟩
  · rename_i trees _
    obtain ⟨-, steps, stepped⟩ := Reference.isPlain_iff.1 (Template.isPlain_iff.1 plain).1
    simp only [Context.targetsOf, stepped, List.foldl_map]
    have live : ∀ key ∈ context.keysOf template.target owner swapped,
        (network.tree? key.tree).isSome := fun key => isSome_tree?_of_mem_keysOf planted
    generalize context.keysOf template.target owner swapped = keys at *
    induction keys generalizing network with
    | nil => exact ⟨idle, network.evolves_refl⟩
    | cons first rest ih =>
      obtain ⟨next, evolves⟩ := idle.instantiate owner trees swapped planted plain
        (live first (List.mem_cons_self ..))
      obtain ⟨last, further⟩ := ih next (planted.evolve evolves) fun key member =>
        isSome_tree?_evolve evolves (live key (List.mem_cons_of_mem first member))
      exact ⟨last, evolves.trans further⟩

theorem Idle.compileSource (idle : Idle network) (planted : Planted context.trees network)
    {source : String} (plain : isPlainSource source = true) :
    Idle (compileSource context network owner source).2 ∧
      network.Evolves (compileSource context network owner source).2 := by
  unfold Command.compileSource
  split
  · exact ⟨idle, network.evolves_refl⟩
  · rename_i template parsed
    simp only [isPlainSource, parsed] at plain
    obtain ⟨first, evolves⟩ := idle.compileTemplate owner false planted plain
    dsimp only
    split
    · obtain ⟨second, further⟩ := first.compileTemplate owner true (planted.evolve evolves)
        plain
      exact ⟨second, evolves.trans further⟩
    · exact ⟨first, evolves⟩

end ConceptLaws.Command
