import ConceptLaws.Report.Value
import ConceptLaws.Session.Operations

/-! Reports of entities, correspondences, the outcomes of passes, suggestions and shapes. -/

namespace ConceptLaws.Report

def entity (value : Entity) : Json :=
  .object [("id", identifier value.id), ("concept", identifier value.concept),
    ("head", orNull identifier value.head), ("reference", orNull identifier value.reference),
    ("value", .string value.value.display), ("name", .optional value.name),
    ("deep", .bool value.deep),
    ("appended", .bool value.provenance.appended),
    ("tentative", .bool value.provenance.tentative),
    ("from_maps", identifiers value.provenance.fromMaps.toList)]

def entities (relation : Relation) : Json := .array (relation.toList.map entity)

def inferredFormula (formula : InferredFormula) : Json :=
  .array [identifier formula.map, identifier formula.node, identifier formula.owner,
    .string formula.source]

def passStats (stats : PassStats) : Json :=
  .array [.natural stats.nodesChecked, .natural stats.mapsCreated, .natural stats.mapsSatisfied,
    .natural stats.nodesAppended, .natural stats.commandsInferred]

def outcome (value : Outcome) : Json :=
  .object [("stats", passStats value.stats), ("appended", identifiers value.appended),
    ("satisfied", identifiers value.satisfied),
    ("inferred", .array (value.inferred.map inferredFormula))]

def correspondence (map : Correspondence) : Json :=
  .object [("id", identifier map.id), ("law", identifier map.law),
    ("pairs", .array (map.pairs.map fun pair =>
      .array [identifier pair.entity, identifier pair.node])),
    ("deep", identifiers map.deepPredicates.toList),
    ("intersections", identifiers map.intersections.toList),
    ("satisfied", .bool map.satisfied), ("tentative", .bool map.tentative),
    ("conclusions", identifiers map.conclusions),
    ("formulas", .array (map.formulas.toList.map fun (node, formula) =>
      .array [identifier node, identifier formula.owner, .string formula.source])),
    ("injective", .bool map.isInjective)]

def correspondences (matcher : Matcher) : Json :=
  .array (matcher.toList.map correspondence)

def inferredCommand (entry : FormulaPlace × InferredCommand) : Json :=
  let (place, command) := entry
  .array [identifier place.map, identifier place.node, identifier command.owner,
    .string command.family, .string command.source]

def symbols (session : Session) : Json :=
  .array (session.symbols.map fun (owner, symbol) => .array [identifier owner, .string symbol])

def visuals (session : Session) : Json :=
  .array (session.visuals.map fun (owner, visual) => .array [identifier owner, exported visual])

def suggestion (value : Suggestion) : Json :=
  .object [("map", identifier value.map), ("law", .string value.law),
    ("symbols", strings value.symbols)]

def suggestions (session : Session) : Json := .array (session.suggestions.map suggestion)

def point (value : Point) : Json := .array [float value.x, float value.y]

def shape : Shape → Json
  | .line start finish =>
    .object [("kind", .string "line"), ("from", point start), ("to", point finish)]
  | .circle center radius =>
    .object [("kind", .string "circle"), ("center", point center), ("radius", float radius)]
  | .arc center radius angleStart angleEnd =>
    .object [("kind", .string "arc"), ("center", point center), ("radius", float radius),
      ("angle_start", float angleStart), ("angle_end", float angleEnd)]
  | .rightTriangle first second third =>
    .object [("kind", .string "right_triangle"),
      ("vertices", .array [point first, point second, point third])]

def shapes (values : List Shape) : Json := .array (values.map shape)

end ConceptLaws.Report
