import ConceptLaws.Command.Reference

/-! Expressions of commands: source text with references in double braces.
Faults tell the place of the opening braces in bytes. -/

namespace ConceptLaws.Command

inductive Block where
  | text (content : String)
  | reference (reference : Reference)
deriving Repr, DecidableEq

def Block.isText : Block → Bool
  | text _ => true
  | reference _ => false

inductive ExpressionFault where
  | unterminated (offset : Nat)
  | reference (offset : Nat) (fault : ReferenceFault)
deriving Repr, DecidableEq

def ExpressionFault.message : ExpressionFault → String
  | unterminated offset => "unterminated reference block at offset " ++ toString offset
  | reference offset fault =>
    "reference block at offset " ++ toString offset ++ ": " ++ fault.message

namespace Expression

/-- The letters before and after the first two marks in a row. -/
def breakAt? (mark : Char) : List Char → Option (List Char × List Char)
  | first :: second :: rest =>
    if first = mark && second = mark then some ([], rest)
    else (breakAt? mark (second :: rest)).map fun (before, after) => (first :: before, after)
  | _ => none

theorem length_breakAt {mark : Char} {letters before after : List Char}
    (found : breakAt? mark letters = some (before, after)) :
    before.length + after.length + 2 = letters.length := by
  fun_induction breakAt? mark letters generalizing before after with
  | case1 => simp_all
  | case2 first second rest _ ih =>
    obtain ⟨⟨inner, last⟩, read, same⟩ := Option.map_eq_some_iff.1 found
    have := ih read
    simp only [Prod.mk.injEq] at same
    simp only [← same.1, ← same.2, List.length_cons] at this ⊢
    omega
  | case3 => simp at found

def byteLength (letters : List Char) : Nat :=
  letters.foldr (fun letter total => letter.utf8Size + total) 0

/-- A text block, unless there is nothing to hold. -/
def textBlock (letters : List Char) : List Block :=
  if letters.isEmpty then [] else [.text (String.ofList letters)]

/-- The blocks of letters that start at a byte offset; blank letters at the end are left out. -/
def blocksFrom (offset : Nat) (letters : List Char) : Except ExpressionFault (List Block) :=
  match opened : breakAt? '\x7b' letters with
  | none => .ok (if letters.all Text.isBlank then [] else [.text (String.ofList letters)])
  | some (before, inner) =>
    let start := offset + byteLength before
    match closed : breakAt? '\x7d' inner with
    | none => .error (.unterminated start)
    | some (content, after) =>
      have := length_breakAt opened
      have := length_breakAt closed
      match Reference.parse content with
      | .error fault => .error (.reference start fault)
      | .ok reference =>
        match blocksFrom (start + 2 + byteLength content + 2) after with
        | .error fault => .error fault
        | .ok others => .ok (textBlock before ++ .reference reference :: others)
termination_by letters.length

end Expression

structure Expression where
  blocks : List Block
deriving Repr, DecidableEq, Inhabited

namespace Expression

def parse (letters : List Char) : Except ExpressionFault Expression :=
  match blocksFrom 0 letters with
  | .error fault => .error fault
  | .ok blocks => .ok ⟨blocks⟩

def isEmpty (expression : Expression) : Bool := expression.blocks.isEmpty

/-- Whether no block reads a key. -/
def isConstant (expression : Expression) : Bool := expression.blocks.all Block.isText

end Expression

end ConceptLaws.Command
