import ConceptLaws.Path
import ConceptLaws.Text

/-! References of the command language.

    reference := "$" name ("." name)* flags
               | selector ("." selector)* ("." key)* flags
               | key ("." key)* flags
    selector  := ("S" | "A" | "B" | "C") ["[" ["!"] concept "]"]
    flags     := [":R"] [">" name]

A segment that is one of the four letters alone is a selector, and selectors come before keys. Faults
tell the place in characters of the trimmed text. -/

namespace ConceptLaws.Command

/-- A hop from an entity: to itself, to its head, to its reference, to the entities it is head of.
-/
inductive Selector where
  | current | head | reference | children
deriving Repr, DecidableEq

namespace Selector

def ofLetter? : Char → Option Selector
  | 'S' => some current
  | 'A' => some head
  | 'B' => some reference
  | 'C' => some children
  | _ => none

def letter : Selector → Char
  | current => 'S'
  | head => 'A'
  | reference => 'B'
  | children => 'C'

/-- Head and reference exchanged. -/
def swapped : Selector → Selector
  | head => reference
  | reference => head
  | selector => selector

end Selector

/-- Keeps the entities of a concept, or, negated, all others. -/
structure ConceptFilter where
  concept : String
  negated : Bool
deriving Repr, DecidableEq

structure Step where
  selector : Selector
  filter : Option ConceptFilter
deriving Repr, DecidableEq

inductive Base where
  /-- A variable, to which another command binds a key. -/
  | named (variableName : String)
  /-- No step at all means the owner itself. -/
  | nodes (steps : List Step)
deriving Repr, DecidableEq

structure Reference where
  base : Base
  key : Path
  recursive : Bool
  bind : Option String
deriving Repr, DecidableEq

inductive ReferenceFault where
  | empty
  | expectedName (position : Nat)
  | unexpected (position : Nat) (found : Char)
  | unterminatedFilter (position : Nat)
  | selectorAfterKey (position : Nat)
deriving Repr, DecidableEq

def ReferenceFault.message : ReferenceFault → String
  | empty => "empty reference"
  | expectedName position => "expected a name at offset " ++ toString position
  | unexpected position found =>
    "unexpected `" ++ found.toString ++ "` at offset " ++ toString position
  | unterminatedFilter position =>
    "unterminated concept filter at offset " ++ toString position
  | selectorAfterKey position => "selector after key segment at offset " ++ toString position

namespace Reference

/-- Letters still to be read; the place of the first one is told from their number. -/
abbrev Rest := List Char

def place (total : Nat) (rest : Rest) : Nat := total - rest.length

/-- A name at the start of the rest. -/
def name (total : Nat) (rest : Rest) : Except ReferenceFault (String × Rest) :=
  if (rest.takeWhile Text.isWordChar).isEmpty then .error (.expectedName (place total rest))
  else .ok (String.ofList (rest.takeWhile Text.isWordChar), rest.dropWhile Text.isWordChar)

/-- Whether a segment may end in front of the rest. -/
def endsSegment : Rest → Bool
  | [] => true
  | letter :: _ => letter == '.' || letter == '[' || letter == ':' || letter == '>'

def atSelector : Rest → Bool
  | [] => false
  | letter :: rest => (Selector.ofLetter? letter).isSome && endsSegment rest

def negation : Rest → Bool × Rest
  | '!' :: after => (true, after)
  | after => (false, after)

/-- The filter behind an opening bracket; `opened` is the place of its selector. -/
def conceptFilter (total opened : Nat) (rest : Rest) :
    Except ReferenceFault (ConceptFilter × Rest) :=
  let (negated, content) := negation rest
  match content.dropWhile (· != ']') with
  | [] => .error (.unterminatedFilter opened)
  | _ :: after =>
    let concept := Text.trim (content.takeWhile (· != ']'))
    if concept.isEmpty then .error (.expectedName (place total content))
    else .ok (⟨String.ofList concept, negated⟩, after)

/-- A selector with its filter, at the start of the rest. -/
def step (total : Nat) (rest : Rest) : Except ReferenceFault (Step × Rest) :=
  match rest with
  | [] => .error (.expectedName (place total rest))
  | letter :: after =>
    match Selector.ofLetter? letter with
    | none => .error (.expectedName (place total rest))
    | some selector =>
      match after with
      | '[' :: content =>
        match conceptFilter total (place total rest) content with
        | .error fault => .error fault
        | .ok (filter, last) => .ok (⟨selector, some filter⟩, last)
      | _ => .ok (⟨selector, none⟩, after)

theorem length_name {total : Nat} {rest after : Rest} {found : String}
    (read : name total rest = .ok (found, after)) : after.length < rest.length := by
  unfold name at read
  split at read
  · simp at read
  next filled =>
    simp only [Except.ok.injEq, Prod.mk.injEq] at read
    rw [← read.2]
    have parts := congrArg List.length (List.takeWhile_append_dropWhile
      (p := Text.isWordChar) (l := rest))
    have taken : 0 < (rest.takeWhile Text.isWordChar).length := by
      cases here : rest.takeWhile Text.isWordChar with
      | nil => simp [here] at filled
      | cons => simp
    simp only [List.length_append] at parts
    omega

theorem length_conceptFilter {total opened : Nat} {rest after : Rest} {found : ConceptFilter}
    (read : conceptFilter total opened rest = .ok (found, after)) :
    after.length < rest.length := by
  have content : (negation rest).2.length ≤ rest.length := by
    unfold negation
    split <;> simp
  have shorter : ((negation rest).2.dropWhile (· != ']')).length ≤ (negation rest).2.length :=
    (List.dropWhile_sublist _).length_le
  unfold conceptFilter at read
  dsimp only at read
  split at read
  · simp at read
  next cut =>
    split at read
    · simp at read
    · simp only [Except.ok.injEq, Prod.mk.injEq] at read
      rw [cut, List.length_cons, read.2] at shorter
      omega

theorem length_step {total : Nat} {rest after : Rest} {found : Step}
    (read : step total rest = .ok (found, after)) : after.length < rest.length := by
  unfold step at read
  split at read
  · simp at read
  · split at read
    · simp at read
    · split at read
      · split at read
        · simp at read
        next kept =>
          simp only [Except.ok.injEq, Prod.mk.injEq] at read
          have := length_conceptFilter kept
          simp only [List.length_cons, ← read.2]
          omega
      · simp only [Except.ok.injEq, Prod.mk.injEq] at read
        simp [← read.2]

/-- What follows a dot. -/
def afterDot? : Rest → Option Rest
  | '.' :: after => some after
  | _ => none

theorem length_afterDot {rest after : Rest} (found : afterDot? rest = some after) :
    after.length < rest.length := by
  unfold afterDot? at found
  split at found
  · simp_all
  · simp at found

/-- Names after dots. -/
def suffixes (total : Nat) (rest : Rest) : Except ReferenceFault (List String × Rest) :=
  match dotted : afterDot? rest with
  | none => .ok ([], rest)
  | some more =>
    match read : name total more with
    | .error fault => .error fault
    | .ok (first, after) =>
      have := length_afterDot dotted
      have := length_name read
      match suffixes total after with
      | .error fault => .error fault
      | .ok (others, last) => .ok (first :: others, last)
termination_by rest.length

/-- Keys with dots between them; a selector among them is a fault. -/
def keys (total : Nat) (rest : Rest) : Except ReferenceFault (List String × Rest) :=
  if atSelector rest then .error (.selectorAfterKey (place total rest))
  else match read : name total rest with
    | .error fault => .error fault
    | .ok (first, after) =>
      match dotted : afterDot? after with
      | none => .ok ([first], after)
      | some more =>
        have := length_name read
        have := length_afterDot dotted
        match keys total more with
        | .error fault => .error fault
        | .ok (others, last) => .ok (first :: others, last)
termination_by rest.length

/-- Selectors and then keys, with dots between them. -/
def segments (total : Nat) (rest : Rest) :
    Except ReferenceFault (List Step × List String × Rest) :=
  if atSelector rest then
    match read : step total rest with
    | .error fault => .error fault
    | .ok (first, after) =>
      match dotted : afterDot? after with
      | none => .ok ([first], [], after)
      | some more =>
        have := length_step read
        have := length_afterDot dotted
        match segments total more with
        | .error fault => .error fault
        | .ok (others, names, last) => .ok (first :: others, names, last)
  else
    match keys total rest with
    | .error fault => .error fault
    | .ok (names, after) => .ok ([], names, after)
termination_by rest.length

/-- What a reference starts from and its keys. -/
def body (total : Nat) (rest : Rest) : Except ReferenceFault (Base × Path × Rest) :=
  match rest with
  | '$' :: more => do
    let (variableName, after) ← name total more
    let (names, last) ← suffixes total after
    .ok (.named variableName, names, last)
  | _ => do
    let (steps, names, last) ← segments total rest
    .ok (.nodes steps, names, last)

/-- The fault of letters that should not be there. -/
def unexpected (total : Nat) (rest : Rest) : ReferenceFault :=
  match rest with
  | [] => .expectedName (place total rest)
  | found :: _ => .unexpected (place total rest) found

def recursiveFlag (total : Nat) : Rest → Except ReferenceFault (Bool × Rest)
  | ':' :: 'R' :: rest => .ok (true, rest)
  | ':' :: rest => .error (unexpected total rest)
  | rest => .ok (false, rest)

def binding (total : Nat) : Rest → Except ReferenceFault (Option String × Rest)
  | '>' :: rest => do
    let (bound, after) ← name total rest
    .ok (some bound, after)
  | rest => .ok (none, rest)

/-- Reads a reference from letters without blanks around them. -/
def ofTrimmed (letters : List Char) : Except ReferenceFault Reference := do
  let total := letters.length
  if letters.isEmpty then .error .empty
  else
    let (base, key, afterBody) ← body total letters
    let (recursive, afterFlag) ← recursiveFlag total afterBody
    let (bind, rest) ← binding total afterFlag
    if rest.isEmpty then .ok ⟨base, key, recursive, bind⟩ else .error (unexpected total rest)

/-- Reads a reference that fills the text, blanks around it aside. -/
def parse (letters : List Char) : Except ReferenceFault Reference :=
  ofTrimmed (Text.trim letters)

end Reference

def ConceptFilter.display (filter : ConceptFilter) : String :=
  "[" ++ (if filter.negated then "!" else "") ++ filter.concept ++ "]"

def Step.display (step : Step) : String :=
  step.selector.letter.toString ++ (step.filter.map ConceptFilter.display).getD ""

def Base.display : Base → List String
  | named variableName => ["$" ++ variableName]
  | nodes steps => steps.map Step.display

/-- The text of a reference, without blanks. -/
def Reference.display (reference : Reference) : String :=
  Text.join "." (reference.base.display ++ reference.key) ++
    (if reference.recursive then ":R" else "") ++
    (match reference.bind with
      | some name => ">" ++ name
      | none => "")

end ConceptLaws.Command
