import ConceptLaws.Command.Template
import ConceptLaws.Report.Value

/-! Reports of references and of the blocks of expressions. -/

namespace ConceptLaws.Report

def conceptFilter (filter : Command.ConceptFilter) : Json :=
  .object [("concept", .string filter.concept), ("negated", .bool filter.negated)]

def referenceStep (step : Command.Step) : Json :=
  .object [("selector", .string step.selector.letter.toString),
    ("filter", orNull conceptFilter step.filter)]

/-- A reference starts from a variable or follows steps. -/
def reference (reference : Command.Reference) : Json :=
  let (variableName, steps) := match reference.base with
    | .named name => (Json.string name, Json.null)
    | .nodes steps => (.null, .array (steps.map referenceStep))
  .object [("variable", variableName), ("steps", steps), ("key", strings reference.key),
    ("recursive", .bool reference.recursive), ("bind", .optional reference.bind),
    ("display", .string reference.display)]

def block : Command.Block → Json
  | .text content => .object [("text", .string content)]
  | .reference value => .object [("ref", reference value)]

end ConceptLaws.Report
