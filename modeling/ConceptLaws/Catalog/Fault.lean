import ConceptLaws.Catalog.Definition

/-! The ways in which a definition fails to be a catalog. -/

namespace ConceptLaws

inductive CatalogFault where
  | duplicateConcept (concept : ConceptId)
  | unknownParentConcept (concept parent : ConceptId)
  | conceptCycle (concept : ConceptId)
  | duplicateLaw (law : LawId)
  | duplicateNode (node : LawNodeId)
  | unknownConcept (law : String) (node : LawNodeId) (concept : ConceptId)
  | danglingLink (law : String) (node target : LawNodeId)
  | lawCycle (law : String) (node : LawNodeId)
  | noPredicateSets (law : String)
  | emptyPredicateSet (law : String) (index : Nat)
  | unknownPredicate (law : String) (index : Nat) (node : LawNodeId)
  | dataNodePredicate (law : String) (node : LawNodeId)
  | dataNodeWithoutHead (law : String) (node : LawNodeId)
  | duplicatePredicateSet (law : String) (first second : Nat)
  | openPredicateSet (law : String) (index : Nat) (node parent : LawNodeId)
  | unknownDeepNode (law : String) (node : LawNodeId)
  /-- The text or the bytes hold no definition at all. -/
  | undecodable
deriving Repr, DecidableEq

namespace CatalogFault

def inLaw (law : String) (text : String) : String := "law `" ++ law ++ "`" ++ text

def message : CatalogFault → String
  | duplicateConcept concept => "duplicate concept id " ++ concept.display
  | unknownParentConcept concept parent =>
    "concept " ++ concept.display ++ " inherits from unknown concept " ++ parent.display
  | conceptCycle concept => "concept inheritance cycle through " ++ concept.display
  | duplicateLaw law => "duplicate law id " ++ law.display
  | duplicateNode node => "duplicate law node id " ++ node.display
  | unknownConcept law node concept =>
    inLaw law (": node " ++ node.display ++ " uses unknown concept " ++ concept.display)
  | danglingLink law node target =>
    inLaw law (": node " ++ node.display ++ " links to " ++ target.display ++
      ", which is not a node of the law")
  | lawCycle law node =>
    inLaw law (": head/reference cycle through node " ++ node.display)
  | noPredicateSets law => inLaw law " declares no predicate sets"
  | emptyPredicateSet law index =>
    inLaw law (": predicate set " ++ toString index ++ " is empty")
  | unknownPredicate law index node =>
    inLaw law (": predicate set " ++ toString index ++ " names " ++ node.display ++
      ", which is not a node of the law")
  | dataNodePredicate law node =>
    inLaw law (": data node " ++ node.display ++ " cannot take part in a predicate")
  | dataNodeWithoutHead law node =>
    inLaw law (": data node " ++ node.display ++ " has no head to attach its formula to")
  | duplicatePredicateSet law first second =>
    inLaw law (": predicate sets " ++ toString first ++ " and " ++ toString second ++
      " are identical")
  | openPredicateSet law index node parent =>
    inLaw law (": predicate set " ++ toString index ++ " contains " ++ node.display ++
      " but not its parent " ++ parent.display)
  | unknownDeepNode law node =>
    inLaw law (": deep node " ++ node.display ++ " is not a node of the law")
  | undecodable => "catalog decode failed"

end CatalogFault

end ConceptLaws
