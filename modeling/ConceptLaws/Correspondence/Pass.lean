import ConceptLaws.Correspondence.Merging
import ConceptLaws.Settings

/-! Matching passes.
A pass looks at every accepted entity that was not checked under its tag or has changed, parents
first, and at the entities that it appends. At each deep predicate that the entity matches it seeds
a correspondence, which is concluded or merged with others. -/

namespace ConceptLaws

inductive MatcherFault where
  | unknownMap (map : MapId)
  | notSatisfied (map : MapId)
deriving Repr, DecidableEq

def MatcherFault.message : MatcherFault → String
  | unknownMap map => "unknown map " ++ map.display
  | notSatisfied map => "map " ++ map.display ++ " is not satisfied"

namespace PassState

/-- Concludes a new correspondence if it fills a predicate set, or looks for others to merge with.
-/
def develop (context : PassContext) (state : PassState) (id : MapId) : PassState :=
  match state.matcher.get? id with
  | none => state
  | some map =>
    if context.catalog.coverage map.law (map.predicateNodes context.catalog) = .exact then
      (state.append context id).2
    else state.checkIntersections context id

/-- Spends a check on an entity at a deep predicate; tells the correspondence seeded there. -/
def checkSeed (context : PassContext) (entity : EntityId) (progress : List MapId × PassState)
    (place : LawId × LawNodeId) : List MapId × PassState :=
  let (created, state) := progress
  match state.matcher.spend? with
  | none => progress
  | some matcher =>
    match matcher.seed state.relation context.catalog place.1 ⟨entity, place.2⟩ with
    | (none, matcher) => (created, { state with matcher })
    | (some id, matcher) => (created ++ [id], { state with matcher }.develop context id)

/-- The deep predicates of all laws, in the order of the catalog. -/
def seedPlaces (catalog : Catalog) : List (LawId × LawNodeId) :=
  catalog.laws.flatMap fun law => law.deepPredicates.map fun node => (law.id, node)

/-- Tries an entity at every deep predicate; tells the correspondences seeded. -/
def checkEntity (context : PassContext) (state : PassState) (entity : EntityId) :
    List MapId × PassState :=
  (seedPlaces context.catalog).foldl (checkSeed context entity) ([], state)

/-- The entities that a pass still has to look at. -/
def pending (state : PassState) (tag : String) (dirty seen : Std.ExtTreeSet EntityId) :
    List EntityId :=
  state.relation.topological.filter fun id =>
    !seen.contains id &&
      ((state.relation.get? id).map fun entity => !entity.isTentative).getD false &&
      (dirty.contains id || state.matcher.checked[id]? != some tag)

/-- Notes that an entity is checked, and checks it. -/
def visit (context : PassContext) (tag : String) (state : PassState) (entity : EntityId) :
    PassState :=
  let outcome := state.outcome
  let noted := { state with
    matcher := { state.matcher with checked := state.matcher.checked.insert entity tag }
    outcome := { outcome with
      stats := { outcome.stats with nodesChecked := outcome.stats.nodesChecked + 1 } } }
  (noted.checkEntity context entity).2

/-- Rounds of a pass. Every round but the first looks at entities that the round before appended,
and appending spends checks, so two rounds more than there are checks are enough. -/
def rounds (context : PassContext) (tag : String) (dirty : Std.ExtTreeSet EntityId) :
    Nat → Std.ExtTreeSet EntityId → PassState → PassState
  | 0, _, state => state
  | limit + 1, seen, state =>
    let pending := state.pending tag dirty seen
    if pending.isEmpty || state.matcher.budget = 0 then state
    else rounds context tag dirty limit (seen.insertMany pending)
      (pending.foldl (visit context tag) state)

end PassState

namespace Matcher

/-- Runs a pass over a relation. -/
def evaluate (matcher : Matcher) (relation : Relation) (catalog : Catalog) (options : PassOptions)
    (dirty : Std.ExtTreeSet EntityId) : PassState :=
  let matcher := if options.reset then matcher.reset else matcher
  let start : PassState := ⟨{ matcher with checks := 0 }, relation, .empty⟩
  let final := PassState.rounds ⟨catalog, options.tentative⟩ options.tag dirty
    (matcher.maxChecks + 2) ∅ start
  let outcome := final.outcome
  { final with
    relation := final.relation.recomputeDeep
    outcome := { outcome with
      stats := { outcome.stats with
        mapsCreated := final.matcher.nextMap.toNat - matcher.nextMap.toNat } } }

/-- Whether every correspondence that lays claim to an entity is tentative; one that is gone counts
as such. -/
def allTentative (matcher : Matcher) (entity : Entity) : Bool :=
  entity.provenance.fromMaps.toList.all fun id =>
    ((matcher.get? id).map Correspondence.tentative).getD true

/-- Accepts or withdraws a satisfied correspondence. The entities that it lays claim to are
tentative as long as all their correspondences are. -/
def setTentative (matcher : Matcher) (relation : Relation) (id : MapId) (tentative : Bool) :
    Except MatcherFault (Matcher × Relation) :=
  match matcher.get? id with
  | none => .error (.unknownMap id)
  | some map =>
    if !map.satisfied then .error (.notSatisfied id)
    else
      let matcher := matcher.update id fun map => { map with tentative := tentative }
      let settle (entity : Entity) : Entity :=
        if entity.provenance.appended && entity.provenance.fromMaps.contains id then
          { entity with provenance := { entity.provenance with
              tentative := matcher.allTentative entity } }
        else entity
      let settled := { relation with entities := relation.entities.map fun _ => settle }
      .ok (matcher, settled.recomputeDeep)

end Matcher

end ConceptLaws
