import ConceptLaws.Command.Compilation
import ConceptLaws.Proofs.Propagation.Looks

/-! Propagation is sound.
Compilation keeps networks in order. So every network that the operations lead to is in order, however
early a cascade was cut off, and a check decides to complete an unknown key only when nothing is open
that a known key below does not shield. -/

namespace ConceptLaws.Command

open Propagation Propagation.Network

variable (context : Context) (owner : EntityId) (trees : EntityTrees) (swapped : Bool)

theorem advances_addBlock {draft : Draft} (sound : draft.network.Sound) (block : Block × Nat) :
    draft.network.Advances (draft.addBlock context owner trees swapped block).network := by
  unfold Draft.addBlock
  split
  · exact sound.advances_refl
  · split
    · exact sound.advances_refl
    · dsimp only
      split
      · exact sound.advances_bindVariable orderly_drain _ _ _
      · exact sound.advances_refl

theorem advances_addBlocks (blocks : List (Block × Nat)) {draft : Draft}
    (sound : draft.network.Sound) :
    draft.network.Advances
      (blocks.foldl (Draft.addBlock context owner trees swapped) draft).network := by
  induction blocks generalizing draft with
  | nil => exact sound.advances_refl
  | cons first rest ih =>
    have head := advances_addBlock context owner trees swapped sound first
    exact head.trans (ih head.sound)

theorem advances_block {network : Network} (sound : network.Sound) (key : Address) :
    network.Advances (network.block key) :=
  sound.advances_ensureWith key fun _ => ⟨rfl, rfl, rfl, rfl⟩

theorem advances_connect {network : Network} (sound : network.Sound) (root : Address)
    (target : Target) (draft : Draft) :
    network.Advances (connect network trees root target draft) := by
  unfold connect
  dsimp only
  have barred : network.Advances (if draft.unreachable then network.block root else network) := by
    split
    · exact advances_block sound root
    · exact sound.advances_refl
  generalize (if draft.unreachable then network.block root else network) = ready at *
  have waiting := barred.trans (barred.sound.advances_foldl
    (fun network (wait : Address × Option Callback) => (network.waitOn root wait.1 wait.2).2)
    draft.waits fun later advances wait _ => advances.sound.advances_waitOn root wait.1 wait.2)
  refine waiting.trans ?_
  split
  · exact waiting.sound.advances_waitOn _ root none
  · exact waiting.sound.advances_waitOn root _ _

theorem sound_instantiate (template : Template) {network : Network} (sound : network.Sound)
    (target : Target) :
    (instantiate context owner trees template swapped network target).Sound := by
  unfold instantiate
  split
  · exact sound
  · dsimp only
    have start : (⟨network, [], [], false⟩ : Draft).network.Sound := sound
    have drafted := (advances_addBlocks context owner trees swapped
      template.expression.blocks.zipIdx start).sound
    generalize template.expression.blocks.zipIdx.foldl
      (Draft.addBlock context owner trees swapped) ⟨network, [], [], false⟩ = draft at *
    have created := (drafted.advances_create (.command
      (compiledOf draft.network owner trees template target draft.blocks))).sound
    split
    · exact (created.advances_execute orderly_drain _).sound.remove _
    · exact (advances_connect trees created _ _ _).sound

theorem sound_compileTemplate (template : Template) {network : Network} (sound : network.Sound) :
    (compileTemplate context network owner template swapped).2.Sound := by
  unfold compileTemplate
  split
  · exact sound
  · dsimp only
    generalize context.targetsOf _ _ _ = targets
    induction targets generalizing network with
    | nil => exact sound
    | cons first rest ih =>
      exact ih (sound_instantiate context owner _ swapped template sound first)

theorem sound_compileSource {network : Network} (sound : network.Sound) (source : String) :
    (compileSource context network owner source).2.Sound := by
  unfold compileSource
  split
  · exact sound
  · rename_i template _
    have compiled := sound_compileTemplate context owner false template sound
    dsimp only
    split
    · exact sound_compileTemplate context owner true template compiled
    · exact compiled

end ConceptLaws.Command

namespace ConceptLaws.Propagation.Network

/-! ## Operations -/

theorem Sound.advances_seed {network : Network} (sound : network.Sound) (tree : Handle)
    (path : Path) (value : Datum) (known : Bool) :
    network.Advances (network.seed tree path value known) :=
  sound.advances_ensureWith ⟨tree, path⟩ fun _ => ⟨rfl, rfl, rfl, rfl⟩

/-- Seeds that were laid one after the other in the tree of an entity. -/
inductive Seeded (data : Handle) (network : Network) : Network → Prop
  | none : Seeded data network network
  | more {later : Network} (before : Seeded data network later) (path : Path) (value : Datum)
      (known : Bool) : Seeded data network (later.seed data path value known)

/-- The trees of an entity before anything is filled in. -/
def createTrees (network : Network) (entity : EntityId) (precedence : Option Nat) : Network :=
  ((network.create (.data ⟨entity, precedence⟩)).2.create (.variableTable ⟨some entity, ∅⟩)).2

theorem seeded_createEntity (network : Network) (entity : Entity) (concept : Concept)
    (precedence : Option Nat) :
    Seeded (network.createEntity entity concept precedence).1.data
      (network.createTrees entity.id precedence)
      (network.createEntity entity concept precedence).2 := by
  unfold createEntity
  dsimp only
  have start : Seeded (network.create (.data ⟨entity.id, precedence⟩)).1
      (network.createTrees entity.id precedence) (network.createTrees entity.id precedence) := .none
  have named := (start.more [conceptSegment, "id"] (.number concept.id.number.toFloat) true).more
    [conceptSegment, "name"] (.text concept.name) true
  cases entity.value.toDatum? with
  | none =>
    cases symbolSeed? entity concept with
    | none => exact named
    | some pair => exact named.more _ _ pair.2
  | some value =>
    have valued := named.more [valueSegment] value true
    cases symbolSeed? entity concept with
    | none => exact valued
    | some pair => exact valued.more _ _ pair.2

theorem Sound.advances_createTrees {network : Network} (sound : network.Sound) (entity : EntityId)
    (precedence : Option Nat) : network.Advances (network.createTrees entity precedence) := by
  have data := sound.advances_create (.data ⟨entity, precedence⟩)
  exact data.trans (data.sound.advances_create _)

theorem Seeded.advances {data : Handle} {network later : Network}
    (seeded : Seeded data network later) (sound : network.Sound) : network.Advances later := by
  induction seeded with
  | none => exact sound.advances_refl
  | more _ path value known ih => exact ih.trans (ih.sound.advances_seed data path value known)

theorem Sound.advances_createEntity {network : Network} (sound : network.Sound) (entity : Entity)
    (concept : Concept) (precedence : Option Nat) :
    network.Advances (network.createEntity entity concept precedence).2 := by
  have created := sound.advances_createTrees entity.id precedence
  exact created.trans ((network.seeded_createEntity entity concept precedence).advances
    created.sound)

theorem Sound.advances_editField {network later : Network} (sound : network.Sound)
    {entity : EntityId} {key : Address} {value : Datum} {before : Option Datum}
    (edited : network.editField entity key value = .ok (before, later)) :
    network.Advances later := by
  unfold editField at edited
  split at edited
  · simp at edited
  · dsimp only at edited
    split at edited
    · simp at edited
    · obtain ⟨-, rfl⟩ := Prod.mk.inj (Except.ok.inj edited)
      have ensured := sound.advances_tame (sound.tame_ensure key)
      have written : (network.ensure key).Advances ((network.ensure key).updateCell key fun cell =>
          { cell.replace (some value) with known := true }) :=
        ensured.sound.advances_relabel key fun _ => ⟨rfl, rfl, rfl, rfl⟩
      exact (ensured.trans written).trans
        (written.sound.advances_tame (written.sound.tame_noteChange key))

theorem Sound.drain {network : Network} (sound : network.Sound) : network.drain.Sound :=
  (orderly_drain network sound).sound

theorem Sound.checkResolved {network : Network} (sound : network.Sound) (key : Address)
    (probe : Bool) : (network.checkResolved key probe).2.Sound := by
  unfold Network.checkResolved
  refine Sound.drain ?_
  cases probe with
  | false => exact (((sincere_check orderly_drain).run network key sound).advances sound).sound
  | true =>
    exact (((sincere_probeKey orderly_drain maxCheckDepth ∅).run network key sound).advances
      sound).sound

/-- The networks that the operations lead to. -/
inductive Reachable : Network → Prop
  | empty (maxSteps : Nat) : Reachable (empty maxSteps)
  | create {network : Network} (before : Reachable network) (role : Role) :
      Reachable (network.create role).2
  | createEntity {network : Network} (before : Reachable network) (entity : Entity)
      (concept : Concept) (precedence : Option Nat) :
      Reachable (network.createEntity entity concept precedence).2
  | remove {network : Network} (before : Reachable network) (handle : Handle) :
      Reachable (network.remove handle).2
  | ensure {network : Network} (before : Reachable network) (key : Address) :
      Reachable (network.ensure key)
  | wait {network : Network} (before : Reachable network) (waiter source : Address)
      (callback : Option Callback) : Reachable (network.wait waiter source callback).2
  | block {network : Network} (before : Reachable network) (key : Address) :
      Reachable (network.block key)
  | know {network : Network} (before : Reachable network) (key : Address) (recursive : Bool) :
      Reachable (network.know key recursive)
  | bind {network : Network} (before : Reachable network) (variableTable : Handle) (name : String)
      (target : Address) : Reachable (network.bind variableTable name target)
  | editField {network later : Network} (before : Reachable network) {entity : EntityId}
      {key : Address} {value : Datum} {old : Option Datum}
      (edited : network.editField entity key value = .ok (old, later)) : Reachable later
  | compile {network : Network} (before : Reachable network) (context : Command.Context)
      (owner : EntityId) (source : String) :
      Reachable (Command.compileSource context network owner source).2
  | activate {network : Network} (before : Reachable network) (key : Address) :
      Reachable (network.activate key)
  | checkResolved {network : Network} (before : Reachable network) (key : Address)
      (probe : Bool) : Reachable (network.checkResolved key probe).2
  | settle {network : Network} (before : Reachable network) : Reachable network.settle

theorem Reachable.sound {network : Network} (reachable : network.Reachable) : network.Sound := by
  induction reachable with
  | empty maxSteps => exact sound_empty maxSteps
  | create _ role ih => exact (ih.advances_create role).sound
  | createEntity _ entity concept precedence ih =>
    exact (ih.advances_createEntity entity concept precedence).sound
  | remove _ handle ih => exact ih.remove handle
  | ensure _ key ih => exact ih.tame (ih.tame_ensure key)
  | wait _ waiter source callback ih =>
    exact (ih.advances_waitOn waiter source callback).sound.drain
  | block _ key ih => exact (Command.advances_block ih key).sound
  | know _ key recursive ih => exact (ih.advances_setKnown orderly_drain key recursive).sound
  | bind _ variableTable name target ih =>
    exact (ih.advances_bindVariable orderly_drain variableTable name target).sound
  | editField _ edited ih => exact (ih.advances_editField edited).sound
  | compile _ context owner source ih =>
    exact Command.sound_compileSource context owner ih source
  | activate _ key ih => exact (ih.tame (ih.tame_activateFrom key)).drain
  | checkResolved _ key probe ih => exact ih.checkResolved key probe
  | settle _ ih => exact (ih.tame (ih.tame_pushChecks _)).drain

/-- Satisfied edges lead to keys that have propagated, keys that have propagated are active, and
whenever a check decides to complete an unknown key, all that goes with it is free and all that is
exposed is satisfied. -/
theorem Reachable.propagation_sound {network : Network} (reachable : network.Reachable) :
    (∀ waiter source, network.HasEdge waiter source true → (network.tree? source.tree).isSome →
      network.isPropagated source = true) ∧
    (∀ key, network.isPropagated key = true → network.isActive key = true) ∧
    (∀ (now settled : Network) (probe : Option Probe) (key : Address) (turns : Nat) (cell : Cell),
      settleKey probe key turns now = (.ready, settled) → settled.cell? key = some cell →
        cell.known = false →
          ∃ tree, settled.tree? key.tree = some tree ∧ Justified tree key.path) := by
  have sound := reachable.sound
  refine ⟨fun waiter source held live => ?_, fun key propagated => ?_,
    fun now settled probe key turns cell decided => justified_of_ready (settleKey_ready decided)⟩
  · obtain ⟨cell, found, -, done⟩ := (sound.linked waiter source true held).2 live
    exact isPropagated_iff.2 ⟨cell, found, done rfl⟩
  · obtain ⟨cell, found, done⟩ := isPropagated_iff.1 propagated
    obtain ⟨tree, live, present⟩ := cell?_eq_some_iff.1 found
    simp [isActive, found, (sound.trees _ tree live).calm key.path cell present done]

/-- Two trees, the first of which waits on the second, which is about to be worked off. -/
def chain : Network :=
  let network := ((empty 16).create .plain).2.create .plain |>.2
  (network.wait ⟨⟨0, 0⟩, []⟩ ⟨⟨1, 0⟩, []⟩ none).2.activateFrom ⟨⟨1, 0⟩, []⟩

theorem reachable_drain_chain : chain.drain.Reachable :=
  (((Reachable.empty 16).create .plain).create .plain).wait ⟨⟨0, 0⟩, []⟩ ⟨⟨1, 0⟩, []⟩ none
    |>.activate ⟨⟨1, 0⟩, []⟩

theorem propagation_sound_chain :
    (chain.drain.HasEdge ⟨⟨0, 0⟩, []⟩ ⟨⟨1, 0⟩, []⟩ true ∧
      chain.drain.isPropagated ⟨⟨1, 0⟩, []⟩ = true) ∧
    chain.drain.isActive ⟨⟨1, 0⟩, []⟩ = true ∧
    ∃ tree, chain.tree? ⟨1, 0⟩ = some tree ∧ Justified tree [] := by
  obtain ⟨edges, active, decided⟩ := reachable_drain_chain.propagation_sound
  have held : chain.drain.HasEdge ⟨⟨0, 0⟩, []⟩ ⟨⟨1, 0⟩, []⟩ true := by
    have satisfied : chain.drain.edge? ⟨⟨0, 0⟩, []⟩ ⟨⟨1, 0⟩, []⟩ = some ⟨true, none⟩ := by
      decide +kernel
    obtain ⟨cell, found, waits⟩ := edge?_eq_some_iff.1 satisfied
    exact ⟨cell, _, found, waits, rfl⟩
  have source : chain.drain.isPropagated ⟨⟨1, 0⟩, []⟩ = true := edges _ _ held (by decide +kernel)
  refine ⟨⟨held, source⟩, active _ source, ?_⟩
  have ready : settleKey none ⟨⟨1, 0⟩, []⟩ 1 chain = (.ready, chain) := by
    have stands : chain.standing ⟨⟨1, 0⟩, []⟩ = .ready := rfl
    simp [settleKey, stands]
  have unknown : (chain.cell? ⟨⟨1, 0⟩, []⟩).map Cell.known = some false := by decide +kernel
  obtain ⟨cell, found, dark⟩ := Option.map_eq_some_iff.1 unknown
  exact decided chain chain none _ 1 cell ready found dark

end ConceptLaws.Propagation.Network
