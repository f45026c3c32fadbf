import ConceptLaws.Proofs.Command.Ordering
import ConceptLaws.Proofs.Propagation.Composition

/-! Commands and symbols.
A symbol completes only when every command that writes at or below it has been executed. So nothing
is written there any more, and a complete symbol is what its parts make up to the end. -/

namespace ConceptLaws.Command

open Propagation Propagation.Network

variable {network : Network}

/-- No command writes at the root of a tree. -/
def Aimed (network : Network) : Prop :=
  ∀ handle command target, network.command? handle = some command →
    command.target = some target → target.path ≠ Path.root

theorem Aimed.later {later : Network} (aimed : Aimed network) (same : SameCommands network later) :
    Aimed later := by
  intro handle command target found writes
  have back : SameCommands later network := fun handle => (same handle).symm
  obtain ⟨executed, before⟩ := back.found found
  exact aimed handle _ target before writes

/-- Neither what a command has still to write nor a key above it is complete. -/
theorem Wired.incomplete (wired : Wired network) {handle : Handle} {command : Compiled}
    (found : network.command? handle = some command) (fresh : command.executed = false)
    {target : Address} (writes : command.target = some target) {above : Path}
    (within : target.path.isWithin above = true) :
    network.isPropagated ⟨target.tree, above⟩ = false := by
  rw [← Bool.not_eq_true]
  intro propagated
  obtain ⟨⟨done, held⟩, -⟩ := (wired.joined handle command found).writes target writes
  have satisfied := wired.settled handle command target found writes above within propagated done
    held
  subst satisfied
  obtain ⟨tree, live, -⟩ := command?_eq_some_iff.1 found
  have root := wired.propagated_of_satisfied held (by simp [Address.ofTree, live])
  simp [(wired.executed handle command found).1 root] at fresh

theorem Wired.clears (wired : Wired network) (aimed : Aimed network) {handle : Handle}
    {command : Compiled} (found : network.command? handle = some command)
    (fresh : command.executed = false) {target : Address} (writes : command.target = some target) :
    network.Clears target := by
  rintro _ - done rfl path within
  rw [← Bool.not_eq_true]
  intro inside
  -- Two keys above one are comparable, and above a symbol there is the root alone.
  have below : target.path.isWithin symbolPath = true := by
    rcases Path.isWithin_total inside within with below | above
    · exact below
    · rcases List.prefix_cons_iff.1 (Path.isWithin_iff.1 above) with root | ⟨rest, same, ends⟩
      · exact absurd root (aimed handle command target found writes)
      · rw [same, List.prefix_nil.1 ends]
        exact Path.isWithin_refl symbolPath
  simp [wired.incomplete found fresh writes below] at done

/-- What is completed below a key adds no complete symbol, unless it is a key of a data tree. -/
theorem clears_completeBelow {target : Address} (clears : network.Clears target) (cascade : Cascade)
    {key : Address} (tree : Tree) (command : network.dataRole? key.tree = none) :
    (network.completeBelow cascade key tree).Clears target := by
  have marks := marks_completeBelow cascade network key tree
  have roles : network.SameRoles (network.completeBelow cascade key tree) := marks.role
  intro handle data done
  rw [roles.dataRole?] at data
  rcases marks.stride.propagated _ done with before | marked
  · exact clears handle data before
  · rw [show handle = key.tree from marked.1, command] at data
    cases data

theorem Wired.composes_move {later : Network} (wired : Wired network) (aimed : Aimed network)
    {looks : List Look} (move : Move network looks later) : network.Composes later := by
  cases move with
  | satisfy attached => exact (alike_satisfy fun edge => wired.silent _ _ edge).composes
  | pass => exact network.composes_refl
  | complete orderly ready =>
    rename_i cascade key
    obtain ⟨tree, _, able, -⟩ := standing_eq_ready_iff.1 ready
    obtain ⟨advances, -⟩ := wired.sound.advances_completeBelow orderly ready able.live
    have roles : network.SameRoles (network.completeBelow cascade key tree) :=
      (marks_completeBelow cascade network key tree).role
    have below : network.Composes (network.completeBelow cascade key tree) :=
      composes_foldl _ (fun path member _ => composes_runAndPropagate cascade
        (Or.inl (ne_root_of_mem_ready member))) network
    rw [complete_eq cascade able.live]
    refine (below.trans ?_).trans (alike_updateAgenda _ _).composes
    by_cases ordinary : key.path ≠ Path.root ∨ network.command? key.tree = none
    · exact composes_runAndPropagate cascade (by rwa [roles.command?])
    · obtain ⟨root, some_⟩ := not_or.1 ordinary
      obtain ⟨command, found⟩ := Option.ne_none_iff_exists'.1 some_
      obtain ⟨handle, path⟩ := key
      obtain rfl : path = Path.root := Decidable.not_not.1 root
      obtain ⟨fresh, -⟩ := wired.ordered found ready
      have foundBelow := (roles.command? handle).trans found
      obtain ⟨other, live, role⟩ := command?_eq_some_iff.1 foundBelow
      have ran : (network.completeBelow cascade ⟨handle, Path.root⟩ tree).runKey cascade
          ⟨handle, Path.root⟩ =
          (network.completeBelow cascade ⟨handle, Path.root⟩ tree).execute cascade handle := by
        simp [runKey, live, role]
      unfold runAndPropagate
      rw [ran]
      refine (advances.sound.composes_execute cascade foundBelow
        (wired.joined handle command found).unbound fun _ target writes => ?_).trans
          (composes_propagateKey fun _ => by simp [Path.root, symbolPath])
      refine clears_completeBelow (wired.clears aimed found fresh writes) cascade tree ?_
      rw [← roles.dataRole?]
      simp [dataRole?, live, role]

theorem network_of_mem_move {later : Network} {looks : List Look}
    (move : Move network looks later) {look : Look} (member : look ∈ looks) : look.network = network := by
  cases move with
  | satisfy => cases member
  | pass => rw [List.mem_singleton.1 member]
  | complete => rw [List.mem_singleton.1 member]

/-- From every look on, complete symbols stay what they are. -/
theorem Wired.composes_passage {later : Network} {looks : List Look} (wired : Wired network)
    (aimed : Aimed network) (passage : Passage network looks later) : network.Composes later ∧
      ∀ look ∈ looks, Wired look.network ∧ look.network.Composes later ∧
        (look.answer = .ready → look.network.standing look.key = .ready) := by
  induction passage with
  | refl => exact ⟨composes_refl _, by simp⟩
  | move move _ ih =>
    have first := wired.composes_move aimed move
    obtain ⟨rest, seen⟩ := ih (wired.move move) (aimed.later (wired.proceeds_move move).same)
    refine ⟨first.trans rest, fun look member => ?_⟩
    rcases List.mem_append.1 member with here | there
    · obtain ⟨wiredHere, -, ready⟩ := (wired.proceeds_move move).seen look here
      have same := network_of_mem_move move here
      refine ⟨wiredHere, ?_, ready⟩
      rw [same]
      exact first.trans rest
    · exact seen look there
  | edit tame alike _ ih =>
    obtain ⟨rest, seen⟩ :=
      ih (wired.tame tame) (aimed.later (sameCommands_of_sameRoles tame.sameRoles))
    exact ⟨alike.composes.trans rest, seen⟩

/-! ## Requests -/

theorem Request.passage (request : Request) {network : Network} (sound : network.Sound) :
    Passage network (request.looks network) (request.perform network) := by
  cases request with
  | activate key =>
    have tame := sound.tame_activateFrom key
    exact .edit tame (network.alike_activateFrom key) (sound.tame tame).passage_drain
  | settle =>
    have tame := sound.tame_pushChecks network.unsettled
    exact .edit tame (network.alike_updateAgenda _) (sound.tame tame).passage_drain
  | checkResolved key probe =>
    cases probe with
    | false =>
      have run := (sincere_check orderly_drain).run network key sound
      exact run.passage.trans (run.advances sound).sound.passage_drain
    | true =>
      have run := (sincere_probeKey orderly_drain maxCheckDepth ∅).run network key sound
      exact run.passage.trans (run.advances sound).sound.passage_drain

theorem passage_performAll (requests : List Request) {network : Network} (sound : network.Sound) :
    Passage network (allLooks network requests) (performAll network requests) := by
  induction requests generalizing network with
  | nil => exact .refl network
  | cons first rest ih =>
    have passage := first.passage sound
    exact passage.trans (ih (passage.advances sound).sound)

/-! ## Compilation -/

/-- The target of a command is not the root of a data tree; a command that cannot be read is left
out anyway. -/
def isAimedSource (source : String) : Bool :=
  match Template.parse source with
  | .error _ => true
  | .ok template => !template.target.key.isEmpty

theorem Aimed.create (aimed : Aimed network) (sound : network.Sound) {command : Compiled}
    (lower : ∀ target, command.target = some target → target.path ≠ Path.root) :
    Aimed (network.create (.command command)).2 := by
  intro handle other target found writes
  rw [command?_create sound] at found
  split at found
  · obtain rfl := Option.some.inj found
    exact lower target writes
  · exact aimed handle other target found writes

theorem Aimed.remove (aimed : Aimed network) (handle : Handle) :
    Aimed (network.remove handle).2 := by
  intro other command target found writes
  obtain ⟨tree, live, role⟩ := command?_eq_some_iff.1 found
  rw [tree?_remove] at live
  split at live
  · simp at live
  · exact aimed other command target (command?_eq_some_iff.2 ⟨tree, live, role⟩) writes

variable {context : Context} (owner : EntityId) (trees : EntityTrees) (swapped : Bool)

theorem Aimed.instantiate (aimed : Aimed network) (sound : network.Sound)
    (planted : Planted context.trees network) {template : Template}
    (plain : template.isPlain = true) {address : Address} (lower : address.path ≠ Path.root)
    (live : (network.tree? address.tree).isSome) :
    Aimed (instantiate context owner trees template swapped network (.key address)) := by
  unfold Command.instantiate
  split
  · exact aimed
  dsimp only
  have start : Faithful network ⟨network, [], [], false⟩ := ⟨rfl, rfl, by simp⟩
  obtain ⟨target, blocks⟩ := Template.isPlain_iff.1 plain
  obtain ⟨unbound, -⟩ := Reference.isPlain_iff.1 target
  have faithful := faithful_foldl_addBlock owner trees swapped planted start
    fun block (member : block ∈ template.expression.blocks.zipIdx) =>
      blocks block.1 (List.fst_mem_of_mem_zipIdx member)
  generalize template.expression.blocks.zipIdx.foldl
    (Draft.addBlock context owner trees swapped) ⟨network, [], [], false⟩ = draft at *
  rw [faithful.unchanged]
  generalize making : compiledOf network owner trees template (.key address) draft.blocks = command
  have aims : ∀ target, command.target = some target → target.path ≠ Path.root := by
    rintro _ writes
    rw [← making] at writes
    obtain rfl := Option.some.inj writes
    exact lower
  have created := sound.advances_create (.command command)
  have aimedCreated := aimed.create sound aims
  split
  · have found : (network.create (.command command)).2.command?
        (network.create (.command command)).1 = some command := by
      rw [command?_create sound, if_pos rfl]
    have bare : command.bind = none := by rw [← making]; exact unbound
    obtain ⟨-, runs⟩ := created.sound.stride_execute drain found bare
    exact (aimedCreated.later (sameCommands_of_runs runs)).remove _
  · have still : ∀ {handle : Handle}, (network.tree? handle).isSome →
        ((network.create (.command command)).2.tree? handle).isSome :=
      isSome_tree?_evolve created.evolves
    have root : ((network.create (.command command)).2.tree?
        (network.create (.command command)).1).isSome := by
      rw [sound.tree?_create, if_pos rfl]
      rfl
    obtain ⟨ties, -⟩ := ties_connect trees (.ofTree _) created.sound root (still live)
      faithful.waits fun key member => still (faithful.live key member)
    exact aimedCreated.later (sameCommands_of_sameRoles ties.roles)

theorem Idle.aimed_compileTemplate (idle : Idle network) (aimed : Aimed network)
    (planted : Planted context.trees network) {template : Template}
    (plain : template.isPlain = true) (lower : template.target.key ≠ Path.root) :
    Aimed (Command.compileTemplate context network owner template swapped).2 := by
  unfold Command.compileTemplate
  split
  · exact aimed
  rename_i trees _
  obtain ⟨-, steps, stepped⟩ := Reference.isPlain_iff.1 (Template.isPlain_iff.1 plain).1
  simp only [Context.targetsOf, stepped, List.foldl_map]
  have sited : ∀ key ∈ context.keysOf template.target owner swapped,
      key.path ≠ Path.root ∧ (network.tree? key.tree).isSome := by
    refine fun key member => ⟨?_, isSome_tree?_of_mem_keysOf planted member⟩
    obtain ⟨id, -, named⟩ := List.mem_filterMap.1 member
    obtain ⟨trees, -, rfl⟩ := Option.map_eq_some_iff.1 named
    exact lower
  generalize context.keysOf template.target owner swapped = keys at *
  induction keys generalizing network with
  | nil => exact aimed
  | cons first rest ih =>
    obtain ⟨below, live⟩ := sited first List.mem_cons_self
    have next := aimed.instantiate owner trees swapped idle.sound planted plain below live
    obtain ⟨idleNext, evolves⟩ := idle.instantiate owner trees swapped planted plain live
    refine ih idleNext next (planted.evolve evolves) fun key member => ?_
    obtain ⟨below, live⟩ := sited key (List.mem_cons_of_mem first member)
    exact ⟨below, isSome_tree?_evolve evolves live⟩

theorem Idle.aimed_compileSource (idle : Idle network) (aimed : Aimed network)
    (planted : Planted context.trees network) {source : String}
    (plain : isPlainSource source = true) (lower : isAimedSource source = true) :
    Aimed (Command.compileSource context network owner source).2 := by
  unfold Command.compileSource
  split
  · exact aimed
  rename_i template parsed
  simp only [isPlainSource, parsed] at plain
  have below : template.target.key ≠ Path.root := by
    simpa [isAimedSource, parsed, Path.root] using lower
  have first := idle.aimed_compileTemplate owner false aimed planted plain below
  obtain ⟨idleFirst, evolves⟩ := idle.compileTemplate owner false planted plain
  dsimp only
  split
  · exact idleFirst.aimed_compileTemplate owner true first (planted.evolve evolves) plain below
  · exact first

theorem Idle.aimed_compileAll (idle : Idle network) (aimed : Aimed network)
    (planted : Planted context.trees network) {commands : List (EntityId × String)}
    (plain : ∀ command ∈ commands, isPlainSource command.2 = true)
    (lower : ∀ command ∈ commands, isAimedSource command.2 = true) :
    Aimed (Command.compileAll context network commands) := by
  unfold Command.compileAll
  induction commands generalizing network with
  | nil => exact aimed
  | cons first rest ih =>
    have plainFirst := plain first List.mem_cons_self
    obtain ⟨next, evolves⟩ := idle.compileSource first.1 planted plainFirst
    exact ih next
      (idle.aimed_compileSource first.1 aimed planted plainFirst (lower first List.mem_cons_self))
      (planted.evolve evolves) (fun command member => plain command (List.mem_cons_of_mem _ member))
      fun command member => lower command (List.mem_cons_of_mem _ member)

theorem Unwired.aimed (unwired : Unwired network) : Aimed network := by
  intro handle command target found
  rw [unwired.vacant] at found
  cases found

end ConceptLaws.Command
