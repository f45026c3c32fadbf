import ConceptLaws.Document

/-! Settings of a session and options of a pass; every field has a default. -/

namespace ConceptLaws

structure Settings where
  /-- Events that one cascade may handle; what is left stays pending. -/
  maxCascadeSteps : Nat
  /-- Checks that one matching pass may make. -/
  maxMapChecks : Nat
  /-- The attributes to which concepts attach commands. -/
  attributeTypes : List String
  /-- Groups of concept names, the tightest binding one first. -/
  symbolPrecedence : List (List String)
deriving Repr, DecidableEq

namespace Settings

def standard : Settings where
  maxCascadeSteps := 1000000
  maxMapChecks := 100000
  attributeTypes := ["symbol", "visual", "value"]
  symbolPrecedence := [["power"], ["product", "ratio"], ["sum", "difference"]]

instance : Inhabited Settings := ⟨standard⟩

def ofDocument? (document : Document) : Option Settings := do
  let fields ← document.fields?
    ["max_cascade_steps", "max_map_checks", "attribute_types", "symbol_precedence"]
  some {
    maxCascadeSteps := ← fields.default? "max_cascade_steps" Document.natural?
      standard.maxCascadeSteps
    maxMapChecks := ← fields.default? "max_map_checks" Document.natural? standard.maxMapChecks
    attributeTypes := ← fields.default? "attribute_types" (Document.list? Document.text?)
      standard.attributeTypes
    symbolPrecedence := ← fields.default? "symbol_precedence"
      (Document.list? (Document.list? Document.text?)) standard.symbolPrecedence }

def isAttribute (settings : Settings) (name : String) : Bool :=
  settings.attributeTypes.contains name

end Settings

structure PassOptions where
  /-- What the pass appends is tentative. -/
  tentative : Bool
  /-- The pass starts without correspondences. -/
  reset : Bool
  /-- Entities that were checked under the same tag are skipped, unless they changed. -/
  tag : String
deriving Repr, DecidableEq

namespace PassOptions

def standard : PassOptions := ⟨false, false, "evaluate"⟩

instance : Inhabited PassOptions := ⟨standard⟩

/-- The options of a pass that only suggests. -/
def suggest : PassOptions := ⟨true, false, "suggest"⟩

def ofDocument? (document : Document) : Option PassOptions := do
  let fields ← document.fields? ["tentative", "reset", "tag"]
  some {
    tentative := ← fields.default? "tentative" Document.bool? standard.tentative
    reset := ← fields.default? "reset" Document.bool? standard.reset
    tag := ← fields.default? "tag" Document.text? standard.tag }

end PassOptions

end ConceptLaws
