import ConceptLaws.Arithmetic.Operation

/-! Evaluation of an expression.

    sum     := product (("+" | "-") product)*
    product := signed (("*" | "/" | "%") signed)*
    signed  := "-" signed | power
    power   := primary ["^" signed]
    primary := number | text | operand | name ["(" arguments ")"] | "(" sum ")"

Every nested sum, exponent and argument passes through `signed`, so the grammar is given relative to
a reader of the next `signed` below, and at most 128 of them nest. A loop takes at most `limit` turns;
each turn reads a token, so the number of tokens is enough. -/

namespace ConceptLaws.Arithmetic

/-- Reads a value off the front of the tokens. -/
abbrev Reader := List Token → Except Fault (Datum × List Token)

def productTail (signed : Reader) : Nat → Datum → Reader
  | limit + 1, left, .operator operation :: rest =>
    if operation = .times || operation = .dividedBy || operation = .modulo then do
      let (right, after) ← signed rest
      let value ← numeric operation left right
      productTail signed limit value after
    else .ok (left, .operator operation :: rest)
  | _, left, tokens => .ok (left, tokens)

def product (signed : Reader) (limit : Nat) : Reader := fun tokens => do
  let (first, rest) ← signed tokens
  productTail signed limit first rest

def sumTail (signed : Reader) (limit : Nat) : Nat → Datum → Reader
  | turns + 1, left, .operator operation :: rest =>
    if operation = .plus || operation = .minus then do
      let (right, after) ← product signed limit rest
      let value ← combine operation left right
      sumTail signed limit turns value after
    else .ok (left, .operator operation :: rest)
  | _, left, tokens => .ok (left, tokens)

def sum (signed : Reader) (limit : Nat) : Reader := fun tokens => do
  let (first, rest) ← product signed limit tokens
  sumTail signed limit limit first rest

/-- The token after a parenthesised sum has to close it. -/
def expectClose : List Token → Except Fault (List Token)
  | [] => .error .unexpectedEnd
  | .closing :: rest => .ok rest
  | token :: _ => .error (.unexpectedToken token)

/-- Arguments after the first opening parenthesis or comma, in order. -/
def argumentsTail (signed : Reader) (limit : Nat) :
    Nat → List Token → Except Fault (List Datum × List Token)
  | 0, _ => .error .unexpectedEnd
  | turns + 1, tokens => do
    let (first, rest) ← sum signed limit tokens
    match rest with
    | [] => .error .unexpectedEnd
    | .closing :: after => .ok ([first], after)
    | .comma :: after =>
      let (others, last) ← argumentsTail signed limit turns after
      .ok (first :: others, last)
    | token :: _ => .error (.unexpectedToken token)

def arguments (signed : Reader) (limit : Nat) :
    List Token → Except Fault (List Datum × List Token)
  | .closing :: rest => .ok ([], rest)
  | tokens => argumentsTail signed limit limit tokens

def primary (signed : Reader) (limit : Nat) : Reader
  | [] => .error .unexpectedEnd
  | .number value :: rest => .ok (.number value, rest)
  | .text content :: rest => .ok (.text content, rest)
  | .operand value :: rest => .ok (value, rest)
  | .opening :: rest => do
    let (value, after) ← sum signed limit rest
    let last ← expectClose after
    .ok (value, last)
  | .name name :: .opening :: rest => do
    let (values, after) ← arguments signed limit rest
    let value ← call name values
    .ok (value, after)
  | .name name :: rest => do
    let value ← constant name
    .ok (value, rest)
  | token :: _ => .error (.unexpectedToken token)

def power (signed : Reader) (limit : Nat) : Reader := fun tokens => do
  let (base, rest) ← primary signed limit tokens
  match rest with
  | .operator .power :: after =>
    let (exponent, last) ← signed after
    let value ← numeric .power base exponent
    .ok (value, last)
  | _ => .ok (base, rest)

/-- A signed operand with room for `depth` nested ones, itself included. -/
def signed (limit : Nat) : Nat → Reader
  | 0, _ => .error .tooDeep
  | depth + 1, .operator .minus :: rest => do
    let (value, after) ← signed limit depth rest
    let negated ← negate value
    .ok (negated, after)
  | depth + 1, tokens => power (signed limit depth) limit tokens

/-- The number of signed operands that may nest. -/
def maxDepth : Nat := 128

/-- Evaluates a token list that is one sum. A number has to be finite in the end. -/
def evaluateTokens (tokens : List Token) : Except Fault Datum := do
  let limit := tokens.length + 1
  let (value, rest) ← sum (signed limit maxDepth) limit tokens
  match rest with
  | token :: _ => .error (.unexpectedToken token)
  | [] =>
    match value with
    | .number number => if number.isFinite then .ok value else .error .notFinite
    | _ => .ok value

/-- A piece of an expression: source text, or the value of a reference where it has one. -/
inductive Part where
  | source (content : String)
  | operand (value : Option Datum)
deriving Repr, Inhabited

def Part.tokens : Part → Except Fault (List Token)
  | source content => tokenize content.toList
  | operand (some value) => .ok [.operand value]
  | operand none => .error .missingOperand

/-- The tokens of all pieces; no token reaches over the end of a piece. -/
def tokensOfParts : List Part → Except Fault (List Token)
  | [] => .ok []
  | part :: rest => do
    let first ← part.tokens
    let others ← tokensOfParts rest
    .ok (first ++ others)

def evaluate (parts : List Part) : Except Fault Datum := do
  evaluateTokens (← tokensOfParts parts)

def evaluateText (source : String) : Except Fault Datum := evaluate [.source source]

end ConceptLaws.Arithmetic
