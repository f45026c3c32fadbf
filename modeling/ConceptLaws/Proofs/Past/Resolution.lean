import ConceptLaws.Proofs.Past.Cascade
import ConceptLaws.Proofs.Propagation.Reachable
import ConceptLaws.Proofs.Relation.Records
import ConceptLaws.Proofs.Session.Reachable

/-! Compilation and resolution with a past.
A command is compiled for the renamed keys of its targets and sources. Its tree takes the same slot,
and a command that reads nothing gives its slot back, so the next command takes it. A session over
the same records whose trees have a past resolves an attribute as a new one does. -/

namespace ConceptLaws.Past

open Propagation Command

variable (past : Past) (network : Network)

def entityTrees (trees : EntityTrees) : EntityTrees :=
  ⟨past.handle trees.data, past.handle trees.variableTable⟩

/-- What compilation reads, with the trees renamed; the relation may be another one. -/
def context (relation : Relation) (context : Context) : Context :=
  ⟨relation, context.catalog, context.trees.map fun _ trees => past.entityTrees trees⟩

def target : Target → Target
  | .key address => .key (past.key address)
  | .bound variableName => .bound variableName

@[simp] theorem key?_target (target : Target) :
    (past.target target).key? = target.key?.map past.key := by
  cases target <;> rfl

@[simp] theorem isPrimary_target (target : Target) :
    (past.target target).isPrimary (past.network network) = target.isPrimary network := by
  cases target with
  | key address => simp [Past.target, Target.isPrimary, Function.comp_def]
  | bound variableName => rfl

@[simp] theorem compiledOf_network (owner : EntityId) (trees : EntityTrees) (template : Template)
    (target : Target) (blocks : List BoundBlock) :
    compiledOf (past.network network) owner (past.entityTrees trees) template (past.target target)
        (blocks.map past.block) =
      past.command (compiledOf network owner trees template target blocks) := by
  cases target <;> simp [compiledOf, Past.entityTrees, Past.command, Past.target, Target.key?]

/-! ## Drafts -/

def wait (wait : Address × Option Callback) : Address × Option Callback := (past.key wait.1, wait.2)

def draft (draft : Draft) : Draft where
  network := past.network draft.network
  blocks := draft.blocks.map past.block
  waits := draft.waits.map past.wait
  unreachable := draft.unreachable

section contexts

variable {relation : Relation} {context : Context} (same : relation.SameRecords context.relation)

include same

theorem keysOf_context (reference : Reference) (owner : EntityId) (swapped : Bool) :
    (past.context relation context).keysOf reference owner swapped =
      (context.keysOf reference owner swapped).map past.key := by
  simp only [Context.keysOf, Past.context, Reference.reach_congr same, List.map_filterMap,
    Std.ExtTreeMap.getElem?_map, Option.map_map]
  rfl

theorem targetsOf_context (reference : Reference) (owner : EntityId) (swapped : Bool) :
    (past.context relation context).targetsOf reference owner swapped =
      (context.targetsOf reference owner swapped).map past.target := by
  unfold Context.targetsOf
  cases reference.base with
  | named variableName => rfl
  | nodes steps =>
    simp only [past.keysOf_context same, List.map_map]
    rfl

theorem addBlock_draft (owner : EntityId) (trees : EntityTrees) (swapped : Bool) (draft : Draft)
    (block : Block × Nat) :
    Draft.addBlock (past.context relation context) owner (past.entityTrees trees) swapped
        (past.draft draft) block =
      past.draft (Draft.addBlock context owner trees swapped draft block) := by
  unfold Draft.addBlock
  cases block.1 with
  | text content => simp [Past.draft, Past.block]
  | reference reference =>
    simp only
    cases reference.base with
    | named variableName => simp [Past.draft, Past.block, Past.wait, Past.entityTrees]
    | nodes steps =>
      simp only [past.keysOf_context same]
      generalize context.keysOf reference owner swapped = keys
      cases keys with
      | nil => cases reference.bind <;> simp [Past.draft, Past.block]
      | cons first rest =>
        cases reference.bind <;>
          simp [Past.draft, Past.block, Past.wait, Past.entityTrees, Function.comp_def]

theorem addBlocks_draft (owner : EntityId) (trees : EntityTrees) (swapped : Bool)
    (blocks : List (Block × Nat)) (draft : Draft) :
    blocks.foldl (Draft.addBlock (past.context relation context) owner (past.entityTrees trees)
        swapped) (past.draft draft) =
      past.draft (blocks.foldl (Draft.addBlock context owner trees swapped) draft) := by
  induction blocks generalizing draft with
  | nil => rfl
  | cons first rest ih => simp only [List.foldl_cons, past.addBlock_draft same, ih]

end contexts

theorem connect_network (trees : EntityTrees) (root : Address) (target : Target)
    (draft : Draft) :
    connect (past.network network) (past.entityTrees trees) (past.key root) (past.target target)
        (past.draft draft) =
      past.network (connect network trees root target draft) := by
  have waited (waits : List (Address × Option Callback)) (network : Network) :
      (waits.map past.wait).foldl (fun network wait =>
          (network.waitOn (past.key root) wait.1 wait.2).2) (past.network network) =
        past.network (waits.foldl (fun network wait =>
          (network.waitOn root wait.1 wait.2).2) network) := by
    rw [List.foldl_map]
    exact past.foldl_network (fun network wait =>
      congrArg Prod.snd (past.waitOn_network network root wait.1 wait.2)) waits network
  have barred : (if (past.draft draft).unreachable then (past.network network).block (past.key root)
      else past.network network) =
        past.network (if draft.unreachable then network.block root else network) := by
    rw [apply_ite past.network, block_network]
    rfl
  unfold connect
  simp only [barred, show (past.draft draft).waits = draft.waits.map past.wait from rfl, waited]
  cases target with
  | key address => exact congrArg Prod.snd (past.waitOn_network _ address root none)
  | bound variableName =>
    exact congrArg Prod.snd (past.waitOn_network _ root
      (Network.variableKey trees.variableTable variableName) (some .bindTarget))

section contexts

variable {relation : Relation} {context : Context} (same : relation.SameRecords context.relation)

include same

theorem instantiate_network {network : Network} (sound : network.Sound) (owner : EntityId)
    (trees : EntityTrees) (template : Template) (swapped : Bool) (target : Target) :
    instantiate (past.context relation context) owner (past.entityTrees trees) template swapped
        (past.network network) (past.target target) =
      past.network (instantiate context owner trees template swapped network target) := by
  have drafted := past.addBlocks_draft same owner trees swapped template.expression.blocks.zipIdx
    ⟨network, [], [], false⟩
  have start : (⟨network, [], [], false⟩ : Draft).network.Sound := sound
  have kept := (advances_addBlocks context owner trees swapped
    template.expression.blocks.zipIdx start).sound
  have begun : past.draft ⟨network, [], [], false⟩ = ⟨past.network network, [], [], false⟩ := rfl
  rw [begun] at drafted
  unfold instantiate
  simp only [isPrimary_target, key?_target, Option.isSome_map, drafted]
  split
  · rfl
  generalize template.expression.blocks.zipIdx.foldl
    (Draft.addBlock context owner trees swapped) ⟨network, [], [], false⟩ = draft at *
  have compiled : Role.command (compiledOf (past.draft draft).network owner
      (past.entityTrees trees) template (past.target target) (past.draft draft).blocks) =
        past.role (.command (compiledOf draft.network owner trees template target
          draft.blocks)) :=
    congrArg Role.command (past.compiledOf_network draft.network owner trees template target
      draft.blocks)
  have created := past.create_network kept.arena (.command (compiledOf draft.network owner trees
    template target draft.blocks))
  rw [compiled, show (past.draft draft).network = past.network draft.network from rfl, created]
  split
  · simp only [past.execute_network _ past.carries_drain, remove_network]
  · simp only [ofTree_key, past.connect_network _ trees _ target draft]

theorem foldl_instantiate_network {network : Network} (sound : network.Sound) (owner : EntityId)
    (trees : EntityTrees) (template : Template) (swapped : Bool) (targets : List Target) :
    (targets.map past.target).foldl (instantiate (past.context relation context) owner
        (past.entityTrees trees) template swapped) (past.network network) =
      past.network (targets.foldl (instantiate context owner trees template swapped) network) := by
  induction targets generalizing network with
  | nil => rfl
  | cons first rest ih =>
    simp only [List.map_cons, List.foldl_cons, past.instantiate_network same sound,
      ih (sound_instantiate context owner trees swapped template sound first)]

theorem compileTemplate_network {network : Network} (sound : network.Sound) (owner : EntityId)
    (template : Template) (swapped : Bool) :
    compileTemplate (past.context relation context) (past.network network) owner template swapped =
      ((compileTemplate context network owner template swapped).1,
        past.network (compileTemplate context network owner template swapped).2) := by
  have held : (past.context relation context).trees[owner]? =
      context.trees[owner]?.map past.entityTrees := Std.ExtTreeMap.getElem?_map
  unfold compileTemplate
  rw [held]
  cases context.trees[owner]? with
  | none => rfl
  | some trees =>
    simp only [Option.map_some, past.targetsOf_context same, List.length_map,
      past.foldl_instantiate_network same sound]

theorem isSymmetric_context (owner : EntityId) :
    (past.context relation context).isSymmetric owner = context.isSymmetric owner := by
  simp only [Context.isSymmetric, Past.context]
  rcases same.get?_cases owner with absent | found
  · rw [absent.1, absent.2]
  · obtain ⟨entity, other, first, second, alike⟩ := found
    have concepts : entity.concept = other.concept := congrArg EntityRecord.concept alike
    simp only [first, second, Option.bind_eq_bind, Option.bind_some, concepts]

theorem compileSource_network {network : Network} (sound : network.Sound) (owner : EntityId)
    (source : String) :
    compileSource (past.context relation context) (past.network network) owner source =
      ((compileSource context network owner source).1,
        past.network (compileSource context network owner source).2) := by
  unfold compileSource
  cases Template.parse source with
  | error fault => rfl
  | ok template =>
    have kept := sound_compileTemplate context owner false template sound
    simp only [past.compileTemplate_network same sound, past.isSymmetric_context same,
      past.compileTemplate_network same kept]
    split <;> rfl

end contexts

end ConceptLaws.Past

/-! ## Resolution -/

namespace ConceptLaws

/-- The trees are made from what the record of an entity says. -/
theorem Propagation.Network.createEntity_congr {entity other : Entity}
    (alike : entity.toRecord = other.toRecord) (network : Propagation.Network) (concept : Concept)
    (precedence : Option Nat) :
    network.createEntity entity concept precedence =
      network.createEntity other concept precedence := by
  have id : entity.id = other.id := congrArg EntityRecord.id alike
  have name : entity.name = other.name := congrArg EntityRecord.name alike
  have value : entity.value = other.value := congrArg EntityRecord.value alike
  simp only [createEntity, symbolSeed?, id, name, value]

namespace Past

open Propagation

variable (past : Past)

theorem createEntity_network {network : Network} (sound : network.Sound) (entity : Entity)
    (concept : Concept) (precedence : Option Nat) :
    (past.network network).createEntity entity concept precedence =
      (past.entityTrees (network.createEntity entity concept precedence).1,
        past.network (network.createEntity entity concept precedence).2) := by
  have first := past.create_network sound.arena (.data ⟨entity.id, precedence⟩)
  have second := past.create_network
    (sound.advances_create (.data ⟨entity.id, precedence⟩)).sound.arena
    (.variableTable ⟨some entity.id, ∅⟩)
  have unbound : past.variableRole ⟨some entity.id, ∅⟩ = ⟨some entity.id, ∅⟩ := by
    have none : (∅ : Std.ExtTreeMap String Address).map (fun _ key => past.key key) = ∅ := by
      apply Std.ExtTreeMap.ext_getElem?
      intro name
      simp
    rw [Past.variableRole, none]
  simp only [Past.role, unbound] at first second
  unfold Network.createEntity
  simp only [first, second, seed_network]
  cases entity.value.toDatum? <;> cases Network.symbolSeed? entity concept <;>
    simp [Past.entityTrees]

theorem foldl_compile_network {relation : Relation} {context : Command.Context}
    (same : relation.SameRecords context.relation) (commands : List (EntityId × String))
    (count : Nat) {network : Network} (sound : network.Sound) :
    commands.foldl (Session.compile (past.context relation context))
        (count, past.network network) =
      ((commands.foldl (Session.compile context) (count, network)).1,
        past.network (commands.foldl (Session.compile context) (count, network)).2) := by
  induction commands generalizing count network with
  | nil => rfl
  | cons first rest ih =>
    have kept := Command.sound_compileSource context first.1 sound first.2
    have step : Session.compile (past.context relation context) (count, past.network network)
        first =
          ((Session.compile context (count, network) first).1,
            past.network (Session.compile context (count, network) first).2) := by
      simp only [Session.compile, past.compileSource_network same sound]
    rw [List.foldl_cons, List.foldl_cons, step]
    exact ih _ kept

end Past

namespace Session

open Propagation

/-- The trees of a session are those of another one with a past. -/
structure Mirrors (past : Past) (session aged : Session) : Prop where
  network : aged.network = past.network session.network
  trees : aged.trees = session.trees.map fun _ trees => past.entityTrees trees

/-- The sessions are also about the same. -/
structure Ages (past : Past) (session aged : Session) : Prop
    extends Mirrors past session aged where
  sound : session.network.Sound
  catalog : aged.catalog = session.catalog
  settings : aged.settings = session.settings
  inferred : aged.inferred = session.inferred
  records : aged.relation.SameRecords session.relation

variable {past : Past} {session aged : Session}

theorem Ages.seedEntity (ages : Ages past session aged) (id : EntityId) :
    Ages past (session.seedEntity id) (aged.seedEntity id) := by
  unfold Session.seedEntity
  rcases ages.records.get?_cases id with absent | found
  · simp only [absent.1, absent.2]
    exact ages
  · obtain ⟨old, entity, first, second, alike⟩ := found
    have concepts : old.concept = entity.concept := congrArg EntityRecord.concept alike
    simp only [first, second, concepts, ages.catalog, ages.settings]
    cases session.catalog.concept? entity.concept with
    | none => exact ages
    | some concept =>
      simp only [ages.network, Network.createEntity_congr alike,
        past.createEntity_network ages.sound]
      generalize session.catalog.precedence? entity.concept session.settings.symbolPrecedence =
        precedence
      refine ⟨⟨rfl, ?_⟩, (ages.sound.advances_createEntity entity concept precedence).sound, rfl,
        rfl, ages.inferred, ages.records⟩
      simp only [ages.trees]
      apply Std.ExtTreeMap.ext_getElem?
      intro other
      simp only [Std.ExtTreeMap.getElem?_insert, Std.ExtTreeMap.getElem?_map]
      split <;> rfl

theorem Ages.foldl_seedEntity (ages : Ages past session aged) (order : List EntityId) :
    Ages past (order.foldl Session.seedEntity session) (order.foldl Session.seedEntity aged) := by
  induction order generalizing session aged with
  | nil => exact ages
  | cons first rest ih => exact ih (ages.seedEntity first)

theorem Ages.commandsOf (ages : Ages past session aged) (id : EntityId) (name : String) :
    aged.commandsOf id name = session.commandsOf id name := by
  unfold Session.commandsOf
  rw [ages.inferred, ages.catalog]
  rcases ages.records.get?_cases id with absent | found
  · simp only [absent.1, absent.2]
  · obtain ⟨old, entity, first, second, alike⟩ := found
    have concepts : old.concept = entity.concept := congrArg EntityRecord.concept alike
    simp only [first, second, concepts]

theorem Ages.compileAll (ages : Ages past session aged) (order : List EntityId) (name : String) :
    aged.compileAll order name = ((session.compileAll order name).1,
      past.network (session.compileAll order name).2) := by
  have same : aged.relation.SameRecords
      (Command.Context.mk session.relation session.catalog session.trees).relation := ages.records
  have compiled := past.foldl_compile_network same
    (order.flatMap fun id => (session.commandsOf id name).map fun source => (id, source)) 0
    ages.sound
  rw [Past.context, ← ages.trees] at compiled
  unfold Session.compileAll
  rw [ages.network, ages.catalog]
  simp only [ages.commandsOf]
  exact compiled

theorem Ages.activateAll (ages : Ages past session aged) (path : Path) (network : Network) :
    aged.activateAll path (past.network network) =
      past.network (session.activateAll path network) := by
  have values : aged.trees.values = session.trees.values.map past.entityTrees := by
    simp only [values_eq_map, ages.trees, Std.ExtTreeMap.toList_map, List.map_map]
    rfl
  unfold Session.activateAll
  rw [values, List.foldl_map]
  have activated : session.trees.values.foldl (fun network trees =>
        network.activate ⟨(past.entityTrees trees).data, path⟩) (past.network network) =
      past.network (session.trees.values.foldl (fun network trees =>
        network.activate ⟨trees.data, path⟩) network) :=
    past.foldl_network (fun network trees => past.activate_network network ⟨trees.data, path⟩)
      session.trees.values network
  rw [activated, past.settle_network]

theorem Ages.resolve (ages : Ages past session.clearTrees aged.clearTrees) (name : String) :
    (aged.resolve name).1 = (session.resolve name).1 ∧
      Mirrors past (session.resolve name).2 (aged.resolve name).2 := by
  have order : aged.relation.topological = session.relation.topological := ages.records.topological
  have seeded := ages.foldl_seedEntity session.relation.topological
  have compiled := seeded.compileAll session.relation.topological name
  have activated := seeded.activateAll (Path.parse name)
  unfold Session.resolve
  simp only [order, compiled, activated, true_and]
  exact ⟨rfl, seeded.trees⟩

end Session

end ConceptLaws
