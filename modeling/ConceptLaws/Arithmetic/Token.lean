import ConceptLaws.Datum
import ConceptLaws.Text

/-! Tokens of an expression, and the ways in which reading or evaluating one fails. -/

namespace ConceptLaws.Arithmetic

inductive Operator where
  | plus | minus | times | dividedBy | modulo | power
deriving Repr, DecidableEq, Inhabited

def Operator.symbol : Operator → Char
  | plus => '+'
  | minus => '-'
  | times => '*'
  | dividedBy => '/'
  | modulo => '%'
  | power => '^'

def Operator.ofSymbol? : Char → Option Operator
  | '+' => some plus
  | '-' => some minus
  | '*' => some times
  | '/' => some dividedBy
  | '%' => some modulo
  | '^' => some power
  | _ => none

inductive Token where
  | number (value : Float)
  | text (content : String)
  | name (content : String)
  | operator (operation : Operator)
  | opening
  | closing
  | comma
  /-- A value put in place of a reference; one token whatever text it holds. -/
  | operand (value : Datum)
deriving Repr, Inhabited

def Token.describe : Token → String
  | number value => "`" ++ Decimal.text value ++ "`"
  | text content => "'" ++ content ++ "'"
  | name content => "`" ++ content ++ "`"
  | operator operation => "`" ++ operation.symbol.toString ++ "`"
  | opening => "`(`"
  | closing => "`)`"
  | comma => "`,`"
  | operand value => "operand `" ++ value.display ++ "`"

/-- The number of arguments that a function takes. -/
inductive ArgumentCount where
  | exactly (count : Nat)
  | atLeast (count : Nat)
deriving Repr, DecidableEq, Inhabited

def ArgumentCount.display : ArgumentCount → String
  | exactly count => toString count
  | atLeast count => "at least " ++ toString count

inductive Fault where
  | unknownCharacter (letter : Char)
  | unterminatedText
  | unexpectedEnd
  | unexpectedToken (token : Token)
  | unknownFunction (name : String)
  | unknownName (name : String)
  | argumentCount (name : String) (expected : ArgumentCount) (found : Nat)
  | notNumeric (operation : String)
  | missingOperand
  | notFinite
  | tooDeep
deriving Repr, Inhabited

def Fault.message : Fault → String
  | unknownCharacter letter => "unexpected character `" ++ letter.toString ++ "`"
  | unterminatedText => "unterminated string literal"
  | unexpectedEnd => "unexpected end of expression"
  | unexpectedToken token => "unexpected token " ++ token.describe
  | unknownFunction name => "unknown function `" ++ name ++ "`"
  | unknownName name => "unknown name `" ++ name ++ "`"
  | argumentCount name expected found =>
    "`" ++ name ++ "` expects " ++ expected.display ++ " argument(s), got " ++ toString found
  | notNumeric operation => "`" ++ operation ++ "` needs numeric operands"
  | missingOperand => "reference has no value"
  | notFinite => "result is not finite"
  | tooDeep => "expression nests too deeply"

def isNumeralStart (letter : Char) : Bool := Decimal.isDigit letter || letter == '.'

/-- The sign at the start of a text, if one is there. -/
def signPart : List Char → List Char
  | '+' :: _ => ['+']
  | '-' :: _ => ['-']
  | _ => []

/-- The exponent at the start of a text, if one is there: a marker, a sign, and digits. -/
def exponentPart (letters : List Char) : List Char × List Char :=
  match letters with
  | marker :: rest =>
    if marker = 'e' || marker = 'E' then
      let digits := rest.drop (signPart rest).length
      let read := digits.takeWhile Decimal.isDigit
      if read.isEmpty then ([], letters)
      else (marker :: signPart rest ++ read, digits.dropWhile Decimal.isDigit)
    else ([], letters)
  | [] => ([], [])

/-- The numeral at the start of a text and what follows it. -/
def numeralPart (letters : List Char) : List Char × List Char :=
  let (exponent, rest) := exponentPart (letters.dropWhile isNumeralStart)
  (letters.takeWhile isNumeralStart ++ exponent, rest)

/-- The content of a quoted text up to its closing quote, and what follows. A backslash before a
letter stands for that letter. -/
def quotedPart? (quote : Char) : List Char → Option (List Char × List Char)
  | [] => none
  | '\\' :: letter :: rest =>
    (quotedPart? quote rest).map fun (content, after) => (letter :: content, after)
  | letter :: rest =>
    if letter = quote then some ([], rest)
    else (quotedPart? quote rest).map fun (content, after) => (letter :: content, after)

def isNameStart (letter : Char) : Bool := Text.isLetter letter || letter == '_'

def punctuation? : Char → Option Token
  | '(' => some .opening
  | ')' => some .closing
  | ',' => some .comma
  | letter => (Operator.ofSymbol? letter).map .operator

/-- The token at the start of a text that does not start with a blank, and what follows it. -/
def nextToken (letter : Char) (rest : List Char) : Except Fault (Token × List Char) :=
  if isNumeralStart letter then
    let (numeral, after) := numeralPart (letter :: rest)
    match Decimal.float? numeral with
    | some value => .ok (.number value, after)
    | none => .error (.unknownCharacter letter)
  else if letter = '\'' || letter = '"' then
    match quotedPart? letter rest with
    | some (content, after) => .ok (.text (String.ofList content), after)
    | none => .error .unterminatedText
  else if isNameStart letter then
    .ok (.name (String.ofList (letter :: rest.takeWhile Text.isWordChar)),
      rest.dropWhile Text.isWordChar)
  else match punctuation? letter with
    | some token => .ok (token, rest)
    | none => .error (.unknownCharacter letter)

theorem exponentPart_rest (letters : List Char) :
    (exponentPart letters).2.length ≤ letters.length := by
  unfold exponentPart
  split
  · split
    · dsimp only
      split
      · exact Nat.le_refl _
      · refine Nat.le_trans (List.dropWhile_sublist _).length_le ?_
        simp only [List.length_drop, List.length_cons]
        omega
    · exact Nat.le_refl _
  · exact Nat.le_refl _

theorem quotedPart_rest {quote : Char} {letters content after : List Char}
    (found : quotedPart? quote letters = some (content, after)) :
    after.length ≤ letters.length := by
  fun_induction quotedPart? quote letters generalizing content after with
  | case1 => simp at found
  | case2 letter rest ih =>
    obtain ⟨⟨inner, last⟩, read, same⟩ := Option.map_eq_some_iff.1 found
    have := ih read
    simp_all
    omega
  | case3 => simp_all
  | case4 letter rest _ _ ih =>
    obtain ⟨⟨inner, last⟩, read, same⟩ := Option.map_eq_some_iff.1 found
    have := ih read
    simp_all
    omega

theorem nextToken_rest {letter : Char} {rest after : List Char} {token : Token}
    (found : nextToken letter rest = .ok (token, after)) : after.length ≤ rest.length := by
  unfold nextToken at found
  split at found
  next starts =>
    dsimp only at found
    split at found
    · simp only [Except.ok.injEq, Prod.mk.injEq] at found
      rw [← found.2]
      have drop := exponentPart_rest ((letter :: rest).dropWhile isNumeralStart)
      have skip := (List.dropWhile_sublist isNumeralStart (l := rest)).length_le
      simp only [List.dropWhile_cons, starts, if_true] at drop
      simp only [numeralPart, List.dropWhile_cons, starts, if_true]
      omega
    · simp at found
  · split at found
    · split at found
      next read =>
        simp only [Except.ok.injEq, Prod.mk.injEq] at found
        exact found.2 ▸ quotedPart_rest read
      · simp at found
    · split at found
      · simp only [Except.ok.injEq, Prod.mk.injEq] at found
        exact found.2 ▸ (List.dropWhile_sublist _).length_le
      · split at found
        · simp only [Except.ok.injEq, Prod.mk.injEq] at found
          exact found.2 ▸ Nat.le_refl _
        · simp at found

/-- Cuts a text into tokens; blanks only separate. -/
def tokenize (letters : List Char) : Except Fault (List Token) :=
  match letters with
  | [] => .ok []
  | letter :: rest =>
    if Text.isBlank letter then tokenize rest
    else match found : nextToken letter rest with
      | .error fault => .error fault
      | .ok (token, after) =>
        have := nextToken_rest found
        match tokenize after with
        | .error fault => .error fault
        | .ok tokens => .ok (token :: tokens)
termination_by letters.length

end ConceptLaws.Arithmetic
