import ConceptLaws.Arithmetic.Token
import ConceptLaws.Decimal.Binary

/-! What the operators, constants and functions of an expression compute.
A sum with a text on either side joins the shown texts; everything else is done on numbers. -/

namespace ConceptLaws.Arithmetic

def Operator.apply (operation : Operator) (left right : Float) : Float :=
  match operation with
  | plus => left + right
  | minus => left - right
  | times => left * right
  | dividedBy => left / right
  | modulo => Decimal.remainder left right
  | power => Float.pow left right

/-- Applies an operator to the numeric views of two values. -/
def numeric (operation : Operator) (left right : Datum) : Except Fault Datum :=
  match left.asNumber?, right.asNumber? with
  | some left, some right => .ok (.number (operation.apply left right))
  | _, _ => .error (.notNumeric operation.symbol.toString)

/-- Applies an operator; a sum joins texts. -/
def combine (operation : Operator) (left right : Datum) : Except Fault Datum :=
  if operation = .plus && (left.holdsText || right.holdsText) then
    .ok (.text (left.display ++ right.display))
  else numeric operation left right

def negate (value : Datum) : Except Fault Datum :=
  match value.asNumber? with
  | some number => .ok (.number (-number))
  | none => .error (.notNumeric "-")

def constant (name : String) : Except Fault Datum :=
  if name = "pi" then .ok (.number 3.141592653589793)
  else if name = "e" then .ok (.number 2.718281828459045)
  else .error (.unknownName name)

/-- The smaller number; NaN gives way, and of equals the second is kept, which shows in zeros. -/
def least (left right : Float) : Float :=
  if right.isNaN || left < right then left else right

/-- The larger number; NaN gives way, and of equals the second is kept, which shows in zeros. -/
def greatest (left right : Float) : Float :=
  if right.isNaN || right < left then left else right

mutual

/-- The numbers of a value with its lists flattened, for the function `name`. -/
def numbers (name : String) : Datum → Except Fault (List Float)
  | .number value => .ok [value]
  | .text content =>
    match numberOfText? content with
    | some value => .ok [value]
    | none => .error (.notNumeric name)
  | .list items => numbersOfAll name items

def numbersOfAll (name : String) : List Datum → Except Fault (List Float)
  | [] => .ok []
  | item :: rest =>
    match numbers name item with
    | .error fault => .error fault
    | .ok first =>
      match numbersOfAll name rest with
      | .error fault => .error fault
      | .ok others => .ok (first ++ others)

end

def callUnary (name : String) (compute : Float → Float) (arguments : List Datum) :
    Except Fault Datum :=
  match numbersOfAll name arguments with
  | .error fault => .error fault
  | .ok [value] =>
    if arguments.length = 1 then .ok (.number (compute value))
    else .error (.argumentCount name (.exactly 1) arguments.length)
  | .ok _ => .error (.argumentCount name (.exactly 1) arguments.length)

def callBinary (name : String) (compute : Float → Float → Float) (arguments : List Datum) :
    Except Fault Datum :=
  match numbersOfAll name arguments with
  | .error fault => .error fault
  | .ok [first, second] =>
    if arguments.length = 2 then .ok (.number (compute first second))
    else .error (.argumentCount name (.exactly 2) arguments.length)
  | .ok _ => .error (.argumentCount name (.exactly 2) arguments.length)

def callFold (name : String) (compute : Float → Float → Float) (arguments : List Datum) :
    Except Fault Datum :=
  match numbersOfAll name arguments with
  | .error fault => .error fault
  | .ok [] => .error (.argumentCount name (.atLeast 1) arguments.length)
  | .ok (first :: rest) => .ok (.number (rest.foldl compute first))

/-- The sum; it starts from negative zero, the neutral element of float addition. -/
def callSum (name : String) (arguments : List Datum) : Except Fault Datum :=
  match numbersOfAll name arguments with
  | .error fault => .error fault
  | .ok values => .ok (.number (values.foldl (· + ·) (-0.0)))

/-- The number of items of a list; any other value counts as one. -/
def callLength (name : String) : List Datum → Except Fault Datum
  | [.list items] => .ok (.number items.length.toFloat)
  | [_] => .ok (.number 1)
  | arguments => .error (.argumentCount name (.exactly 1) arguments.length)

/-- Calls the function of a name. -/
def call (name : String) (arguments : List Datum) : Except Fault Datum :=
  match name with
  | "abs" => callUnary name Float.abs arguments
  | "sqrt" => callUnary name Float.sqrt arguments
  | "sin" => callUnary name Float.sin arguments
  | "cos" => callUnary name Float.cos arguments
  | "tan" => callUnary name Float.tan arguments
  | "atan2" => callBinary name Float.atan2 arguments
  | "pow" => callBinary name Float.pow arguments
  | "min" => callFold name least arguments
  | "max" => callFold name greatest arguments
  | "sum" => callSum name arguments
  | "len" => callLength name arguments
  | _ => .error (.unknownFunction name)

end ConceptLaws.Arithmetic
