import ConceptLaws.Decimal.Shortest
import ConceptLaws.Decimal.Numeral
import ConceptLaws.Text

/-! The scalar stored at a key of a data tree: a number, a text, or a list of scalars. -/

namespace ConceptLaws

inductive Datum where
  | number (value : Float)
  | text (content : String)
  | list (items : List Datum)
deriving Repr, Inhabited

/-- The text of a number where it is shown; both zeros are shown as `0`. -/
def numberText (value : Float) : String :=
  if value == 0 then "0" else Decimal.text value

/-- Reads a number out of a text, blanks around it aside. -/
def numberOfText? (content : String) : Option Float :=
  Decimal.float? (Text.trim content.toList)

namespace Datum

mutual

/-- The shown text; the items of a list are separated by commas. -/
def display : Datum → String
  | number value => numberText value
  | text content => content
  | list items => Text.join "," (displayAll items)

def displayAll : List Datum → List String
  | [] => []
  | item :: rest => item.display :: displayAll rest

end

/-- The numeric view: a number, a text that reads as one, or a list of one such item. -/
def asNumber? : Datum → Option Float
  | number value => some value
  | text content => numberOfText? content
  | list [single] => single.asNumber?
  | list _ => none

/-- Appends an item; a scalar becomes a list of two. -/
def push (datum item : Datum) : Datum :=
  match datum with
  | list items => list (items ++ [item])
  | scalar => list [scalar, item]

mutual

/-- The shown texts of the scalars in a datum, nested lists flattened. -/
def blocks : Datum → List String
  | number value => [numberText value]
  | text content => [content]
  | list items => blocksAll items

def blocksAll : List Datum → List String
  | [] => []
  | item :: rest => item.blocks ++ blocksAll rest

end

mutual

/-- Whether a text occurs in the datum. -/
def holdsText : Datum → Bool
  | number _ => false
  | text _ => true
  | list items => anyHoldsText items

def anyHoldsText : List Datum → Bool
  | [] => false
  | item :: rest => item.holdsText || anyHoldsText rest

end

end Datum

end ConceptLaws
