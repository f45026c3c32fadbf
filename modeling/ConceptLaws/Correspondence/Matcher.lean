import ConceptLaws.Correspondence.Basic

/-! The matcher keeps all correspondences, knows in which of them a pair occurs, and remembers which
entities were checked. The number of checks of a pass is limited. -/

namespace ConceptLaws

structure Matcher where
  maps : Std.ExtTreeMap MapId Correspondence
  nextMap : MapId
  /-- The correspondences in which a pair occurred when they were made. -/
  registry : Std.ExtTreeMap Pair (Std.ExtTreeSet MapId)
  /-- The tag under which an entity was checked last. -/
  checked : Std.ExtTreeMap EntityId String
  /-- The checks of this pass. -/
  checks : Nat
  maxChecks : Nat

namespace Matcher

def empty (maxChecks : Nat) : Matcher := ⟨∅, ⟨0⟩, ∅, ∅, 0, maxChecks⟩

instance : Inhabited Matcher := ⟨empty 0⟩

def get? (matcher : Matcher) (id : MapId) : Option Correspondence := matcher.maps[id]?

/-- The correspondences in the order in which they were made. -/
def toList (matcher : Matcher) : List Correspondence := matcher.maps.values

def size (matcher : Matcher) : Nat := matcher.maps.size

def isEmpty (matcher : Matcher) : Bool := matcher.maps.isEmpty

def satisfied (matcher : Matcher) : List Correspondence :=
  matcher.toList.filter Correspondence.satisfied

def registered (matcher : Matcher) (pair : Pair) : Std.ExtTreeSet MapId :=
  matcher.registry.getD pair ∅

/-- The correspondences at a pair. -/
def mapsAt (matcher : Matcher) (pair : Pair) : List MapId := (matcher.registered pair).toList

def update (matcher : Matcher) (id : MapId) (change : Correspondence → Correspondence) :
    Matcher :=
  { matcher with maps := matcher.maps.modify id change }

/-- Drops all correspondences and what was checked. -/
def reset (matcher : Matcher) : Matcher :=
  { matcher with maps := ∅, nextMap := ⟨0⟩, registry := ∅, checked := ∅ }

def unregister (id : MapId) (registry : Std.ExtTreeMap Pair (Std.ExtTreeSet MapId)) (pair : Pair) :
    Std.ExtTreeMap Pair (Std.ExtTreeSet MapId) :=
  registry.modify pair fun ids => ids.erase id

/-- Drops a correspondence with its places in the registry. -/
def drop (matcher : Matcher) (map : Correspondence) : Matcher :=
  { matcher with
    maps := matcher.maps.erase map.id
    registry := map.pairs.foldl (unregister map.id) matcher.registry }

/-- Drops the correspondences in which an entity occurs, and forgets that it was checked. -/
def forgetEntity (matcher : Matcher) (entity : EntityId) : Matcher :=
  let stale := matcher.toList.filter fun map => map.nodeOf.contains entity
  let matcher := stale.foldl drop matcher
  { matcher with
    registry := matcher.registry.filter fun _ ids => !ids.isEmpty
    checked := matcher.checked.erase entity }

/-- The number of checks left in this pass. -/
def budget (matcher : Matcher) : Nat := matcher.maxChecks - matcher.checks

/-- Takes one check from the budget, if one is left. -/
def spend? (matcher : Matcher) : Option Matcher :=
  if matcher.checks ≥ matcher.maxChecks then none
  else some { matcher with checks := matcher.checks + 1 }

/-- The correspondences that share a pair with the given pairs. -/
def sharing (matcher : Matcher) (pairs : List Pair) : Std.ExtTreeSet MapId :=
  pairs.foldl (fun ids pair => ids.insertMany (matcher.mapsAt pair)) ∅

def register (id : MapId) (registry : Std.ExtTreeMap Pair (Std.ExtTreeSet MapId)) (pair : Pair) :
    Std.ExtTreeMap Pair (Std.ExtTreeSet MapId) :=
  registry.insert pair ((registry.getD pair ∅).insert id)

/-- Takes in a correspondence under the next identifier. -/
def allocate (matcher : Matcher) (map : Correspondence) : MapId × Matcher :=
  let id := matcher.nextMap
  let shared := (matcher.sharing map.pairs).toList
  let map := { map with
    id := id
    intersections := (map.intersections.insertMany shared).erase id }
  (id, { matcher with
    maps := matcher.maps.insert id map
    nextMap := id.next
    registry := map.pairs.foldl (register id) matcher.registry })

/-- Whether a correspondence was already built from this one deep predicate at this entity. -/
def isSeeded (matcher : Matcher) (pair : Pair) : Bool :=
  (matcher.mapsAt pair).any fun id =>
    match matcher.get? id with
    | some map => map.deepPredicates.size == 1 && map.deepPredicates.contains pair.node
    | none => false

/-- Builds a correspondence from an entity at a node and what the two need, unless one is there
already. -/
def seed (matcher : Matcher) (relation : Relation) (catalog : Catalog) (law : LawId) (pair : Pair) :
    Option MapId × Matcher :=
  if matcher.isSeeded pair then (none, matcher)
  else
    let map := Correspondence.empty law
    match map.plan? relation catalog pair with
    | none => (none, matcher)
    | some plan =>
      let filled := plan.foldl Correspondence.record map
      let (id, matcher) := matcher.allocate
        { filled with deepPredicates := filled.deepPredicates.insert pair.node }
      (some id, matcher)

end Matcher

end ConceptLaws
