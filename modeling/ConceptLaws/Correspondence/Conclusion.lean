import ConceptLaws.Correspondence.Matcher

/-! Conclusions of satisfied correspondences.
Every conclusion of a law is a branch: its node with the parents that are not mapped yet. A branch
is planned as a whole, and applied as a whole or not at all. An equivalent child is reused where
there is one; a data node makes no entity but a formula for the entity of its head. -/

namespace ConceptLaws

/-- A formula that a pass added. -/
structure InferredFormula where
  map : MapId
  node : LawNodeId
  owner : EntityId
  source : String
deriving Repr, DecidableEq

structure PassStats where
  nodesChecked : Nat
  mapsCreated : Nat
  mapsSatisfied : Nat
  nodesAppended : Nat
  commandsInferred : Nat
deriving Repr, DecidableEq

/-- What a pass brought. -/
structure Outcome where
  stats : PassStats
  appended : List EntityId
  satisfied : List MapId
  inferred : List InferredFormula
deriving Repr, DecidableEq

def Outcome.empty : Outcome := ⟨⟨0, 0, 0, 0, 0⟩, [], [], []⟩

/-- What a pass reads. -/
structure PassContext where
  catalog : Catalog
  tentative : Bool

/-- What a pass changes. -/
structure PassState where
  matcher : Matcher
  relation : Relation
  outcome : Outcome

/-- What a node of a branch stands for: an entity, or the result of an earlier step. -/
inductive BranchSlot where
  | entity (id : EntityId)
  | planned (step : Nat)
deriving Repr, DecidableEq

inductive BranchStep where
  | reuse (node : LawNodeId) (entity : EntityId)
  | create (node : LawNodeId) (head reference : Option BranchSlot)
  | formula (node : LawNodeId) (owner : BranchSlot)
deriving Repr, DecidableEq

structure BranchPlan where
  steps : List BranchStep
  slots : Std.ExtTreeMap LawNodeId BranchSlot

namespace BranchPlan

def empty : BranchPlan := ⟨[], ∅⟩

def add (plan : BranchPlan) (node : LawNodeId) (step : BranchStep) (slot : BranchSlot) :
    BranchSlot × BranchPlan :=
  (slot, { steps := plan.steps ++ [step], slots := plan.slots.insert node slot })

end BranchPlan

namespace Relation

/-- Whether a child can stand for a node of a concept with a reference, if the node needs one. -/
def isEquivalent (concept : ConceptId) (reference : Option EntityId) (child : Entity) : Bool :=
  child.concept == concept && (reference.isNone || child.reference == reference)

/-- The first child of a head that can stand for a node. A node without a head, or with a parent
that is still to be made, has none. -/
def existingChild? (relation : Relation) (node : LawNode) (head reference : Option BranchSlot) :
    Option EntityId :=
  match head with
  | some (.entity head) =>
    let search (reference : Option EntityId) : Option EntityId :=
      (((relation.children head .head).filterMap relation.get?).find?
        (isEquivalent node.concept reference)).map Entity.id
    if node.reference.isNone then search none
    else match reference with
      | some (.entity reference) => search (some reference)
      | _ => none
  | _ => none

end Relation

namespace Correspondence

/-- What an entity stands for while it exists. -/
def slotOf? (relation : Relation) (entity : EntityId) : Option BranchSlot :=
  if relation.contains entity then some (.entity entity) else none

/-- Plans the parent on a side, if the node has one there. -/
def planParent? (planNode : BranchPlan → LawNodeId → Option (BranchSlot × BranchPlan))
    (plan : BranchPlan) (parent : Option LawNodeId) : Option (Option BranchSlot × BranchPlan) :=
  match parent with
  | none => some (none, plan)
  | some node => (planNode plan node).map fun (slot, plan) => (some slot, plan)

/-- The step for a node whose parents are planned. -/
def addNode? (relation : Relation) (plan : BranchPlan) (node : LawNode)
    (head reference : Option BranchSlot) : Option (BranchSlot × BranchPlan) :=
  if node.isData then
    head.map fun owner => plan.add node.id (.formula node.id owner) owner
  else match relation.existingChild? node head reference with
    | some entity => some (plan.add node.id (.reuse node.id entity) (.entity entity))
    | none =>
      some (plan.add node.id (.create node.id head reference) (.planned plan.steps.length))

/-- Plans a node and the parents it needs, down from what the correspondence maps already. `depth`
bounds the links that are followed. -/
def planNode (map : Correspondence) (relation : Relation) (catalog : Catalog) :
    Nat → BranchPlan → LawNodeId → Option (BranchSlot × BranchPlan)
  | 0, _, _ => none
  | depth + 1, plan, id =>
    match plan.slots[id]?, map.entityOf[id]?, map.formulas[id]? with
    | some slot, _, _ => some (slot, plan)
    | none, some entity, _ => (slotOf? relation entity).map fun slot => (slot, plan)
    | none, none, some formula => (slotOf? relation formula.owner).map fun slot => (slot, plan)
    | none, none, none => do
      let node ← catalog.lawNode? map.law id
      let (head, plan) ← planParent? (planNode map relation catalog depth) plan node.head
      let (reference, plan) ← planParent? (planNode map relation catalog depth) plan node.reference
      addNode? relation plan node head reference

/-- The plan of the branch of a node. -/
def planBranch? (map : Correspondence) (relation : Relation) (catalog : Catalog)
    (node : LawNodeId) : Option (BranchSlot × BranchPlan) :=
  map.planNode relation catalog (map.planDepth catalog) .empty node

end Correspondence

/-- A branch while it is applied: what each step led to, and what is new. -/
structure BranchProgress where
  relation : Relation
  made : List EntityId
  created : List Pair
  formulas : List (LawNodeId × Formula)

namespace BranchProgress

def start (relation : Relation) : BranchProgress := ⟨relation, [], [], []⟩

def resolve? (progress : BranchProgress) : BranchSlot → Option EntityId
  | .entity id => some id
  | .planned step => progress.made[step]?

def done (progress : BranchProgress) (entity : EntityId) : BranchProgress :=
  { progress with made := progress.made ++ [entity] }

/-- The entity that a correspondence makes for a node. -/
def newEntity (map : Correspondence) (id : EntityId) (node : LawNode)
    (head reference : Option EntityId) : Entity where
  id := id
  concept := node.concept
  head := head
  reference := reference
  value := node.value
  name := node.name
  deep := false
  provenance := ⟨true, map.tentative, (∅ : Std.ExtTreeSet MapId).insert map.id⟩

/-- Makes the entity of a node; also where that fails an identifier is used up. -/
def create (progress : BranchProgress) (catalog : Catalog) (map : Correspondence) (node : LawNode)
    (head reference : Option BranchSlot) : Bool × BranchProgress :=
  let (id, relation) := progress.relation.freshId
  let entity := newEntity map id node (head >>= progress.resolve?) (reference >>= progress.resolve?)
  match relation.insert entity catalog with
  | .error _ => (false, { progress with relation })
  | .ok relation =>
    (true, { progress.done id with
      relation := relation
      created := progress.created ++ [⟨id, node.id⟩] })

/-- Applies a step; tells whether it succeeded. -/
def step (catalog : Catalog) (map : Correspondence) (progress : BranchProgress) :
    BranchStep → Bool × BranchProgress
  | .reuse _ entity => (true, progress.done entity)
  | .create id head reference =>
    match catalog.lawNode? map.law id with
    | none => (false, progress)
    | some node => progress.create catalog map node head reference
  | .formula id slot =>
    match progress.resolve? slot, catalog.lawNode? map.law id >>= LawNode.formula with
    | some owner, some source =>
      (true, { progress.done owner with
        formulas := progress.formulas ++ [(id, ⟨owner, source⟩)] })
    | _, _ => (false, progress)

/-- Applies steps until one fails. -/
def run (catalog : Catalog) (map : Correspondence) (progress : BranchProgress) :
    List BranchStep → Bool × BranchProgress
  | [] => (true, progress)
  | step :: rest =>
    match progress.step catalog map step with
    | (true, progress) => run catalog map progress rest
    | (false, progress) => (false, progress)

end BranchProgress

/-- A correspondence lays claim to a reused entity, which stays tentative only if it is so too. -/
def Entity.claim (map : Correspondence) (entity : Entity) : Entity :=
  if entity.provenance.appended then
    { entity with provenance := { entity.provenance with
        fromMaps := entity.provenance.fromMaps.insert map.id
        tentative := entity.provenance.tentative && map.tentative } }
  else entity

def BranchStep.reused? : BranchStep → Option Pair
  | reuse node entity => some ⟨entity, node⟩
  | _ => none

/-- Records pairs and formulas. -/
def Correspondence.adopt (map : Correspondence) (pairs : List Pair)
    (formulas : List (LawNodeId × Formula)) : Correspondence :=
  let recorded := pairs.foldl record map
  { recorded with formulas := recorded.formulas.insertMany formulas }

namespace PassState

/-- Takes the results of a branch over into the correspondence, the reused entities and the outcome.
-/
def adopt (state : PassState) (map : Correspondence) (steps : List BranchStep)
    (progress : BranchProgress) : PassState :=
  let reused := steps.filterMap BranchStep.reused?
  let outcome := state.outcome
  let stats := outcome.stats
  { matcher := state.matcher.update map.id
      (Correspondence.adopt · (reused ++ progress.created) progress.formulas)
    relation := reused.foldl (fun relation pair => relation.update pair.entity (Entity.claim map))
      progress.relation
    outcome := { outcome with
      stats := { stats with
        nodesAppended := stats.nodesAppended + progress.created.length
        commandsInferred := stats.commandsInferred + progress.formulas.length }
      appended := outcome.appended ++ progress.created.map Pair.entity
      inferred := outcome.inferred ++ progress.formulas.map fun (node, formula) =>
        ⟨map.id, node, formula.owner, formula.source⟩ } }

/-- Applies the steps of a branch. When one fails, only the identifiers used are gone. -/
def commit (context : PassContext) (state : PassState) (id : MapId) (steps : List BranchStep)
    (root : BranchSlot) : Option EntityId × PassState :=
  match state.matcher.get? id with
  | none => (none, state)
  | some map =>
    match (BranchProgress.start state.relation).run context.catalog map steps with
    | (false, progress) =>
      (none, { state with
        relation := { state.relation with nextId := progress.relation.nextId } })
    | (true, progress) => (progress.resolve? root, state.adopt map steps progress)

/-- Plans and applies the branch of a conclusion; tells the entity it led to. -/
def appendBranch (context : PassContext) (state : PassState) (id : MapId) (node : LawNodeId) :
    Option EntityId × PassState :=
  match state.matcher.get? id with
  | none => (none, state)
  | some map =>
    match map.planBranch? state.relation context.catalog node with
    | none => (none, state)
    | some (root, plan) => state.commit context id plan.steps root

/-- Marks a correspondence satisfied, once. -/
def markSatisfied (context : PassContext) (state : PassState) (map : Correspondence) : PassState :=
  if map.satisfied then state
  else
    let outcome := state.outcome
    { state with
      matcher := state.matcher.update map.id fun map =>
        { map with satisfied := true, tentative := context.tentative }
      outcome := { outcome with
        stats := { outcome.stats with mapsSatisfied := outcome.stats.mapsSatisfied + 1 }
        satisfied := outcome.satisfied ++ [map.id] } }

/-- The branches of the conclusions, one after the other. -/
def appendAll (context : PassContext) (id : MapId) :
    List LawNodeId → PassState → List (Option EntityId) × PassState
  | [], state => ([], state)
  | node :: rest, state =>
    let (first, state) := state.appendBranch context id node
    let (others, state) := appendAll context id rest state
    (first :: others, state)

/-- Marks a correspondence satisfied and appends its conclusions; tells for each what it led to. -/
def append (context : PassContext) (state : PassState) (id : MapId) :
    List (Option EntityId) × PassState :=
  match state.matcher.get? id with
  | none => ([], state)
  | some map =>
    let state := state.markSatisfied context map
    let (results, state) := appendAll context id (context.catalog.conclusions map.law) state
    (results, { state with
      matcher := state.matcher.update id fun map =>
        { map with conclusions := results.filterMap fun result => result } })

end PassState

end ConceptLaws
