import ConceptLaws.Command.Compilation
import ConceptLaws.Correspondence.Pass

/-! Sessions.
A session holds a catalog, the relation that is edited, the correspondences found in it with the
commands that they contribute, and the trees of the last resolution. -/

namespace ConceptLaws

/-- A formula of a correspondence: the correspondence and the law node. -/
structure FormulaPlace where
  map : MapId
  node : LawNodeId
deriving Repr, DecidableEq

namespace FormulaPlace

instance : Ord FormulaPlace where
  compare := compareLex (compareOn map) (compareOn node)

instance : Std.TransOrd FormulaPlace :=
  inferInstanceAs (Std.TransCmp (compareLex (compareOn map) (compareOn node)))

instance : Std.LawfulEqOrd FormulaPlace where
  compare_self := (inferInstance : Std.ReflCmp
    (compareLex (compareOn map) (compareOn node))).compare_self
  eq_of_compare {left right} same := by
    obtain ⟨maps, nodes⟩ := Ordering.then_eq_eq.1 same
    have sameMap : left.map = right.map := Std.compare_eq_iff_eq.1 maps
    have sameNode : left.node = right.node := Std.compare_eq_iff_eq.1 nodes
    cases left
    cases right
    simp_all

end FormulaPlace

/-- A command that a satisfied correspondence contributes to its owner. -/
structure InferredCommand where
  owner : EntityId
  source : String
  /-- The attribute that its target starts with. -/
  family : String
deriving Repr, DecidableEq

inductive SessionFault where
  | relation (fault : RelationFault)
  | field (fault : Propagation.FieldFault)
  | matching (fault : MatcherFault)

def SessionFault.message : SessionFault → String
  | relation fault => fault.message
  | field fault => fault.message
  | matching fault => fault.message

structure Session where
  catalog : Catalog
  settings : Settings
  relation : Relation
  network : Propagation.Network
  /-- The trees of the last resolution. -/
  trees : Std.ExtTreeMap EntityId Propagation.EntityTrees
  matcher : Matcher
  inferred : Std.ExtTreeMap FormulaPlace InferredCommand
  /-- Entities that the next pass has to look at again. -/
  dirty : Std.ExtTreeSet EntityId

namespace Session

/-- A session over a relation. -/
def ofRelation (catalog : Catalog) (settings : Settings) (relation : Relation) : Session where
  catalog := catalog
  settings := settings
  relation := relation
  network := .empty settings.maxCascadeSteps
  trees := ∅
  matcher := .empty settings.maxMapChecks
  inferred := ∅
  dirty := ∅

def ofRecords (catalog : Catalog) (settings : Settings) (records : List EntityRecord) :
    Except SessionFault Session :=
  ((Relation.ofRecords records catalog).map (ofRelation catalog settings)).mapError .relation

/-- Removes the trees of the last resolution. -/
def clearTrees (session : Session) : Session :=
  { session with network := session.network.clear, trees := ∅ }

/-- Flags entities for the next pass. -/
def flag (session : Session) (entities : List EntityId) : Session :=
  { session with dirty := session.dirty.insertMany entities }

/-- Flags the entities whose concept data changed in their trees. -/
def flagChanged (session : Session) : Session :=
  let (changed, network) := session.network.takeChanged
  { session with network }.flag changed

/-- Drops the correspondences in which an entity occurs, with the commands that it owns or that they
contributed. -/
def forget (session : Session) (entity : EntityId) : Session :=
  let matcher := session.matcher.forgetEntity entity
  { session with
    matcher := matcher
    inferred := session.inferred.filter fun place command =>
      command.owner != entity && (matcher.get? place.map).isSome }

/-- An edited entity is forgotten and flagged. -/
def touch (session : Session) (entity : EntityId) : Session :=
  (session.forget entity).flag [entity]

end Session

end ConceptLaws
