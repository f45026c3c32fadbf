import ConceptLaws.Command.Expression
import ConceptLaws.Identifier
import ConceptLaws.Propagation.Cell

/-! Commands as they are written: a target, an action, and an expression unless the action is
`clear`. The three are separated by blanks. -/

namespace ConceptLaws.Command

inductive Action where
  | assign | increase | decrease | scale
  /-- Appends the value as the next numbered child. -/
  | addChild
  /-- Appends the value to the list at the key. -/
  | addValue
  /-- Drops the values at and below the key. -/
  | clear
deriving Repr, DecidableEq, Inhabited

namespace Action

def symbol : Action → String
  | assign => "="
  | increase => "+="
  | decrease => "-="
  | scale => "*="
  | addChild => "add"
  | addValue => "addval"
  | clear => "clear"

def ofSymbol? : String → Option Action
  | "=" => some assign
  | "+=" => some increase
  | "-=" => some decrease
  | "*=" => some scale
  | "add" => some addChild
  | "addval" => some addValue
  | "clear" => some clear
  | _ => none

end Action

inductive TemplateFault where
  | missingAction
  | unknownAction (symbol : String)
  | target (fault : ReferenceFault)
  | expression (fault : ExpressionFault)
  | missingExpression (action : Action)
  | unexpectedExpression
deriving Repr, DecidableEq

def TemplateFault.message : TemplateFault → String
  | missingAction => "missing operator"
  | unknownAction symbol => "unknown operator `" ++ symbol ++ "`"
  | target fault => "malformed target: " ++ fault.message
  | expression fault => fault.message
  | missingExpression action => "`" ++ action.symbol ++ "` needs an expression"
  | unexpectedExpression => "`clear` takes no expression"

structure Template where
  source : String
  target : Reference
  action : Action
  expression : Expression
deriving Repr, DecidableEq

namespace Template

/-- The letters before the first blank and those after it. -/
def splitBlank? (letters : List Char) : Option (List Char × List Char) :=
  match letters.dropWhile (!Text.isBlank ·) with
  | [] => none
  | _ :: after => some (letters.takeWhile (!Text.isBlank ·), after)

/-- Every action but `clear` takes an expression. -/
def checkExpression (action : Action) (expression : Expression) : Except TemplateFault Unit :=
  if action = .clear then
    if expression.isEmpty then .ok () else .error .unexpectedExpression
  else if expression.isEmpty then .error (.missingExpression action)
  else .ok ()

def parse (source : String) : Except TemplateFault Template := do
  let letters := Text.trim source.toList
  let some (targetPart, rest) := splitBlank? letters | .error .missingAction
  let target ← (Reference.parse targetPart).mapError .target
  let actionPart := Text.trimStart rest
  let (symbol, expressionPart) :=
    match splitBlank? actionPart with
    | some (symbol, after) => (symbol, Text.trim after)
    | none => (actionPart, [])
  if symbol.isEmpty then .error .missingAction
  else
    let some action := Action.ofSymbol? (String.ofList symbol)
      | .error (.unknownAction (String.ofList symbol))
    let expression ← (Expression.parse expressionPart).mapError .expression
    checkExpression action expression
    .ok ⟨String.ofList letters, target, action, expression⟩

end Template

end ConceptLaws.Command

/-! Commands compiled for an entity: references are replaced by the keys they name. -/

namespace ConceptLaws.Command

open Propagation

inductive BoundBlock where
  | text (content : String)
  /-- The keys of the reached entities. Keys bound to variables later get the suffix. -/
  | sources (keys : List Address) (recursive : Bool) (suffix : Path)
deriving Repr, DecidableEq

structure Compiled where
  source : String
  owner : EntityId
  /-- The variable table of the owner. -/
  variableTable : Handle
  action : Action
  /-- None until the variable that names the target is bound. -/
  target : Option Address
  targetSuffix : Path
  recursiveTarget : Bool
  blocks : List BoundBlock
  bind : Option String
  /-- The precedence group of the owner, lower binds tighter. -/
  precedence : Option Nat
  executed : Bool
deriving Repr, DecidableEq

end ConceptLaws.Command
