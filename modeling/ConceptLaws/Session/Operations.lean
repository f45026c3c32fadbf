import ConceptLaws.Session.Basic
import ConceptLaws.Shape

/-! Edits of a session.
An edit of the relation drops the correspondences that the edited entities take part in and flags
these entities. A field is edited in the trees of the last resolution. -/

namespace ConceptLaws.Session

/-- Replaces the catalog. If its content differs, all correspondences are dropped and all entities
flagged. -/
def setCatalog (session : Session) (catalog : Catalog) : Except SessionFault Session :=
  match session.relation.toList.find? fun entity => (catalog.concept? entity.concept).isNone with
  | some entity => .error (.relation (.unknownConcept entity.id entity.concept))
  | none =>
    if catalog.fingerprint = session.catalog.fingerprint then .ok { session with catalog }
    else
      let cleared := { session with
        catalog := catalog
        matcher := session.matcher.reset
        inferred := ∅ }.clearTrees
      .ok (cleared.flag session.relation.ids)

/-- Adds an entity. -/
def add (session : Session) (record : EntityRecord) : Except SessionFault Session :=
  match session.relation.insert (Entity.ofRecord record) session.catalog with
  | .error fault => .error (.relation fault)
  | .ok relation => .ok ({ session with relation := relation.recomputeDeep }.flag [record.id])

/-- The entities that link to an entity. -/
def dependents (session : Session) (id : EntityId) : List EntityId :=
  (session.relation.toList.filter fun entity =>
    entity.head == some id || entity.reference == some id).map Entity.id

/-- Removes the trees of an entity. -/
def dropTrees (session : Session) (id : EntityId) : Session :=
  match session.trees[id]? with
  | none => session
  | some trees =>
    { session with
      trees := session.trees.erase id
      network := ((session.network.remove trees.data).2.remove trees.variableTable).2 }

/-- Removes an entity. The entities that link to it lose the link and are touched. -/
def remove (session : Session) (id : EntityId) : Except SessionFault (Entity × Session) :=
  match session.relation.remove id with
  | .error fault => .error (.relation fault)
  | .ok (removed, relation) =>
    let shrunk := { session with relation := relation.recomputeDeep }.forget id
    let touched := (session.dependents id).foldl touch shrunk
    .ok (removed, { touched with dirty := touched.dirty.erase id }.dropTrees id)

def setValue (session : Session) (id : EntityId) (value : Payload) : Except SessionFault Session :=
  match session.relation.setValue id value with
  | .error fault => .error (.relation fault)
  | .ok relation => .ok ({ session with relation }.touch id)

def setConcept (session : Session) (id : EntityId) (concept : ConceptId) :
    Except SessionFault Session :=
  match session.relation.setConcept id concept session.catalog with
  | .error fault => .error (.relation fault)
  | .ok relation => .ok ({ session with relation }.touch id)

def setParents (session : Session) (id : EntityId) (head reference : Option EntityId) :
    Except SessionFault Session :=
  match session.relation.setParents id head reference with
  | .error fault => .error (.relation fault)
  | .ok relation => .ok ({ session with relation := relation.recomputeDeep }.touch id)

/-- A key of the data tree of an entity. -/
def dataKey? (session : Session) (id : EntityId) (path : Path) : Option Propagation.Address :=
  session.trees[id]?.map fun trees => ⟨trees.data, path⟩

/-- Edits a primary field and tells the value before. -/
def setField (session : Session) (id : EntityId) (path : Path) (value : Datum) :
    Except SessionFault (Option Datum × Session) :=
  match session.dataKey? id path with
  | none => .error (.field (.unknownEntity id))
  | some key =>
    match session.network.editField id key value with
    | .error fault => .error (.field fault)
    | .ok (before, network) => .ok (before, { session with network }.flagChanged)

def field? (session : Session) (id : EntityId) (path : Path) : Option Propagation.Field :=
  session.dataKey? id path >>= session.network.field?

end ConceptLaws.Session

/-! Resolution of an attribute.
All trees are made anew, the commands for the attribute are compiled, those of the concepts before
the inferred ones, and then the attribute of every entity is activated. -/

namespace ConceptLaws.Session

open Propagation

/-- Makes the trees of an entity. -/
def seedEntity (session : Session) (id : EntityId) : Session :=
  match session.relation.get? id with
  | none => session
  | some entity =>
    match session.catalog.concept? entity.concept with
    | none => session
    | some concept =>
      let precedence :=
        session.catalog.precedence? entity.concept session.settings.symbolPrecedence
      let (trees, network) := session.network.createEntity entity concept precedence
      { session with network, trees := session.trees.insert id trees }

/-- The commands of an entity for an attribute. -/
def commandsOf (session : Session) (id : EntityId) (name : String) : List String :=
  match session.relation.get? id with
  | none => []
  | some entity =>
    session.catalog.commandsFor entity.concept name ++
      ((session.inferred.values.filter fun command =>
        command.owner == id && command.family == name).map InferredCommand.source)

/-- Compiles a command for an entity; counts its targets. -/
def compile (context : Command.Context) (progress : Nat × Network) (command : EntityId × String) :
    Nat × Network :=
  let (count, network) := Command.compileSource context progress.2 command.1 command.2
  (progress.1 + count, network)

/-- Compiles the commands for an attribute in the order of their entities. -/
def compileAll (session : Session) (order : List EntityId) (name : String) : Nat × Network :=
  let commands := order.flatMap fun id =>
    (session.commandsOf id name).map fun source => (id, source)
  commands.foldl (compile ⟨session.relation, session.catalog, session.trees⟩)
    (0, session.network)

/-- Activates a path in all data trees and lets everything settle. -/
def activateAll (session : Session) (path : Path) (network : Network) : Network :=
  (session.trees.values.foldl (fun network trees => network.activate ⟨trees.data, path⟩)
    network).settle

/-- Resolves an attribute; counts the commands compiled. -/
def resolve (session : Session) (name : String) : Nat × Session :=
  let order := session.relation.topological
  let seeded := order.foldl seedEntity session.clearTrees
  let (compiled, network) := seeded.compileAll order name
  (compiled, { seeded with
    network := seeded.activateAll (Path.parse name) network }.flagChanged)

/-- The symbols of the last resolution. -/
def symbols (session : Session) : List (EntityId × String) :=
  session.trees.toList.filterMap fun (id, trees) =>
    (session.network.symbol? trees.data).map fun symbol => (id, symbol)

def symbol? (session : Session) (id : EntityId) : Option String :=
  session.trees[id]? >>= fun trees => session.network.symbol? trees.data

/-- Resolves the symbols. -/
def symbolize (session : Session) : Session := (session.resolve symbolSegment).2

/-- The visual tree of an entity as it was last resolved. -/
def visual? (session : Session) (id : EntityId) : Option Json :=
  (session.dataKey? id [Shape.visualSegment]).map session.network.exportKey

/-- The visual trees that are not empty. -/
def visuals (session : Session) : List (EntityId × Json) :=
  session.trees.keys.filterMap fun id =>
    (session.visual? id).bind fun visual => if visual.isNull then none else some (id, visual)

/-- Resolves the visual trees. -/
def visualize (session : Session) : Session := (session.resolve Shape.visualSegment).2

/-- The shapes of an entity as they were last resolved. -/
def shapes (session : Session) (id : EntityId) : List Shape :=
  ((session.visual? id).map Shape.ofExport).getD []

end ConceptLaws.Session

/-! Passes of a session.
A pass adds the formulas of newly satisfied correspondences to the inferred commands. A suggestion
is a satisfied correspondence that is still tentative. -/

namespace ConceptLaws

structure Suggestion where
  map : MapId
  law : String
  /-- The symbols of the conclusions that have one. -/
  symbols : List String
deriving Repr, DecidableEq

/-- The command that a formula contributes; none if it is malformed or its target has no key. -/
def InferredFormula.command? (formula : InferredFormula) : Option InferredCommand :=
  match Command.Template.parse formula.source with
  | .error _ => none
  | .ok template =>
    template.target.key.head?.map fun family => ⟨formula.owner, formula.source, family⟩

namespace Session

/-- Adds the command of a formula, unless its place has one. -/
def infer (session : Session) (formula : InferredFormula) : Session :=
  match formula.command? with
  | none => session
  | some command =>
    { session with
      inferred := session.inferred.insertIfNew ⟨formula.map, formula.node⟩ command }

/-- Runs a pass over the flagged entities and those not checked yet. -/
def evaluate (session : Session) (options : PassOptions) : PassStats × Session :=
  let flagged := session.flagChanged
  let pass := flagged.matcher.evaluate flagged.relation flagged.catalog options flagged.dirty
  let passed := { flagged with
    matcher := pass.matcher
    relation := pass.relation
    inferred := if options.reset then ∅ else flagged.inferred
    dirty := ∅ }
  (pass.outcome.stats, pass.outcome.inferred.foldl infer passed)

def suggestionOf (session : Session) (map : Correspondence) : Suggestion where
  map := map.id
  law := ((session.catalog.law? map.law).map Law.name).getD ""
  symbols := map.conclusions.filterMap session.symbol?

/-- The suggestions with the symbols of the last resolution. -/
def suggestions (session : Session) : List Suggestion :=
  (session.matcher.satisfied.filter Correspondence.tentative).map session.suggestionOf

/-- Runs a pass that only suggests, and resolves the symbols. -/
def suggest (session : Session) : Session := (session.evaluate .suggest).2.symbolize

/-- The accepted entities that a correspondence lays claim to. -/
def claimed (session : Session) (map : MapId) : List EntityId :=
  (session.relation.toList.filter fun entity =>
    entity.provenance.fromMaps.contains map && !entity.isTentative).map Entity.id

/-- Accepts a suggestion: its entities are flagged, and the symbols resolved. -/
def accept (session : Session) (map : MapId) : Except SessionFault Session :=
  match session.matcher.setTentative session.relation map false with
  | .error fault => .error (.matching fault)
  | .ok (matcher, relation) =>
    let accepted := { session with matcher, relation }
    .ok (accepted.flag (accepted.claimed map)).symbolize

end Session

end ConceptLaws
