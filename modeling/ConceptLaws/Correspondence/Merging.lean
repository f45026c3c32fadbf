import ConceptLaws.Correspondence.Conclusion

/-! Merging of correspondences.
Two unsatisfied correspondences of one law are merged when their deep predicates are different
nodes, no correspondence covers them all yet, they agree on shared entities and nodes, and together
they stay within a predicate set. -/

namespace ConceptLaws

namespace Correspondence

/-- The pairs at the deep predicates; none if one of these is not mapped. -/
def deepPairs? (map : Correspondence) : Option (List Pair) :=
  map.deepPredicates.toList.mapM fun node =>
    map.entityOf[node]?.map fun entity => ⟨entity, node⟩

def predicatePairs (map : Correspondence) (catalog : Catalog) : List Pair :=
  map.pairs.filter fun pair => catalog.isPredicate map.law pair.node

/-- Adds pairs one by one; none if one is in conflict with those before it. -/
def recordAll? (map : Correspondence) : List Pair → Option Correspondence
  | [] => some map
  | pair :: rest =>
    match map.admission pair with
    | .conflict => none
    | _ => (map.record pair).recordAll? rest

end Correspondence

namespace Matcher

/-- The correspondences that hold all the pairs. -/
def covering (matcher : Matcher) : List Pair → List MapId
  | [] => []
  | first :: rest =>
    (matcher.mapsAt first).filter fun id =>
      rest.all fun pair => (matcher.registered pair).contains id

/-- The union of two correspondences that may be merged, and whether it fills a predicate set. -/
def union? (matcher : Matcher) (catalog : Catalog) (left right : Correspondence) :
    Option (Correspondence × Bool) := do
  if left.law != right.law || left.satisfied || right.satisfied then none
  else if left.deepPredicates.toList.any right.deepPredicates.contains then none
  else
    let deepLeft ← left.deepPairs?
    let deepRight ← right.deepPairs?
    if !(matcher.covering (deepLeft ++ deepRight)).isEmpty then none
    else
      let coverage := catalog.coverage left.law
        (left.predicateNodes catalog ++ right.predicateNodes catalog)
      if coverage = .outside then none
      else
        let merged ← (Correspondence.empty left.law).recordAll?
          (left.predicatePairs catalog ++ right.predicatePairs catalog)
        some ({ merged with
          deepPredicates := left.deepPredicates.insertMany right.deepPredicates.toList },
          coverage == .exact)

/-- Takes in a union; it inherits the intersections of its parts, but not the parts. -/
def allocateUnion (matcher : Matcher) (left right merged : Correspondence) : MapId × Matcher :=
  let (id, matcher) := matcher.allocate merged
  (id, matcher.update id fun map =>
    { map with intersections :=
        (((map.intersections.insertMany left.intersections.toList).insertMany
          right.intersections.toList).erase left.id).erase right.id })

/-- The correspondences to merge with: those that intersect, then the other open ones of the law. -/
def candidates (matcher : Matcher) (map : Correspondence) : List MapId :=
  map.intersections.toList ++
    ((matcher.toList.filter fun other =>
      other.law == map.law && !other.satisfied && other.id != map.id &&
        !map.intersections.contains other.id).map Correspondence.id)

end Matcher

namespace PassState

/-- Merges two correspondences if that is possible. A union that fills a predicate set is concluded
at once; otherwise `further` looks for what it can be merged with. -/
def mergeWith (context : PassContext) (further : PassState → MapId → PassState) (state : PassState)
    (left right : MapId) : Bool × PassState :=
  match state.matcher.get? left, state.matcher.get? right with
  | some leftMap, some rightMap =>
    if left = right then (false, state)
    else match state.matcher.union? context.catalog leftMap rightMap with
      | none => (false, state)
      | some (merged, exact) =>
        let (id, matcher) := state.matcher.allocateUnion leftMap rightMap merged
        let state := { state with matcher }
        (true, if exact then (state.append context id).2 else further state id)
  | _, _ => (false, state)

/-- Spends a check and tries to merge two correspondences. -/
def tryMerge (context : PassContext) (further : PassState → MapId → PassState) (left : MapId)
    (state : PassState) (right : MapId) : PassState :=
  match state.matcher.spend? with
  | none => state
  | some matcher => (mergeWith context further { state with matcher } left right).2

/-- Tries to merge a correspondence with every candidate, and what comes out of it further on. Each
level has spent a check, so the budget bounds the depth; without budget there is nothing to do. -/
def mergeAll (context : PassContext) : Nat → PassState → MapId → PassState
  | 0, state, _ => state
  | depth + 1, state, id =>
    match state.matcher.get? id with
    | none => state
    | some map =>
      (state.matcher.candidates map).foldl (tryMerge context (mergeAll context depth) id) state

/-- Checks a correspondence against all others that it may be merged with. -/
def checkIntersections (context : PassContext) (state : PassState) (id : MapId) : PassState :=
  mergeAll context state.matcher.budget state id

/-- Merges two correspondences if that is possible. -/
def checkIntersection (context : PassContext) (state : PassState) (left right : MapId) :
    Bool × PassState :=
  mergeWith context (checkIntersections context) state left right

end PassState

end ConceptLaws
