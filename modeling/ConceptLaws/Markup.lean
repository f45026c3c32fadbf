import ConceptLaws.Datum

/-! Markup of symbols.
A symbol is put together from five parts in a fixed order, each wrapped around what comes before it.
The blocks of a part are joined by commas. -/

namespace ConceptLaws.Markup

def escape (content : String) : String :=
  String.join (content.toList.map fun letter =>
    if letter = '<' then "&lt;"
    else if letter = '>' then "&gt;"
    else if letter = '&' then "&amp;"
    else letter.toString)

/-- The markup of a name. -/
def identifier (name : String) : String := "<mi>" ++ escape name ++ "</mi>"

/-- The markup of a number. -/
def number (value : Float) : String := "<mn>" ++ numberText value ++ "</mn>"

/-- Puts markup into parentheses. -/
def fence (markup : String) : String := "<mfenced>" ++ markup ++ "</mfenced>"

inductive Part where
  | text | above | subscript | superscript | arguments
deriving Repr, DecidableEq

namespace Part

/-- The parts from the inside out. -/
def all : List Part := [text, above, subscript, superscript, arguments]

def name : Part → String
  | text => "text"
  | above => "over"
  | subscript => "subscript"
  | superscript => "superscript"
  | arguments => "arguments"

/-- The part of a name; other names are set like text. -/
def ofName (name : String) : Part := (all.find? fun part => part.name == name).getD text

/-- Sets a part with its blocks around the markup so far. -/
def wrap (part : Part) (base : String) (blocks : List String) : String :=
  let joined := Text.join "," blocks
  let row := "<mrow>" ++ joined ++ "</mrow>"
  match part with
  | text => base ++ row
  | above => "<mover>" ++ base ++ row ++ "</mover>"
  | subscript => "<msub>" ++ base ++ row ++ "</msub>"
  | superscript => "<msup>" ++ base ++ row ++ "</msup>"
  | arguments => "<mrow>" ++ base ++ fence joined ++ "</mrow>"

end Part

/-- Adds a part to the markup so far; a part without blocks adds nothing. -/
def addPart (markup : Option String) (part : Part × List String) : Option String :=
  if part.2.isEmpty then markup else some (part.1.wrap (markup.getD "") part.2)

/-- The markup of the parts in order; none if no part has blocks. -/
def render (parts : List (Part × List String)) : Option String := parts.foldl addPart none

end ConceptLaws.Markup
