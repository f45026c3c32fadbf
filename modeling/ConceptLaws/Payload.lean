import ConceptLaws.Datum

/-! The value of an entity, and the constraint of a law node.
A payload is a list of items written with commas between them: numbers, tuples in braces, intervals
in round or square brackets, and atoms, which are all other texts. Read as a constraint it accepts
the payloads whose items lie in its own, one by one; the empty constraint accepts everything. -/

namespace ConceptLaws

structure Interval where
  start : Float
  finish : Float
  includesStart : Bool
  includesFinish : Bool
deriving Repr, Inhabited

inductive Item where
  | number (value : Float)
  | atom (content : String)
  | tuple (items : List Item)
  | interval (bounds : Interval)
deriving Repr, Inhabited

structure Payload where
  items : List Item
deriving Repr, Inhabited

namespace Payload

/-- Splits at the commas outside all brackets; `depth` counts the open ones. A closing bracket
without an opening one counts for nothing. -/
def splitTopLevel (depth : Nat) : List Char → List (List Char)
  | [] => [[]]
  | letter :: rest =>
    if letter = ',' && depth == 0 then [] :: splitTopLevel 0 rest
    else
      let inner :=
        if letter = '\x7b' || letter = '(' || letter = '[' then depth + 1
        else if letter = '\x7d' || letter = ')' || letter = ']' then depth - 1
        else depth
      match splitTopLevel inner rest with
      | part :: parts => (letter :: part) :: parts
      | [] => [[letter]]

theorem length_of_mem_splitTopLevel {depth : Nat} {letters part : List Char}
    (member : part ∈ splitTopLevel depth letters) : part.length ≤ letters.length := by
  induction letters generalizing depth part with
  | nil => simp_all [splitTopLevel]
  | cons letter rest ih =>
    rw [splitTopLevel] at member
    split at member
    · rcases List.mem_cons.1 member with rfl | later
      · simp
      · exact Nat.le_succ_of_le (ih later)
    · dsimp only at member
      split at member
      next first parts found =>
        rcases List.mem_cons.1 member with rfl | later
        · exact Nat.succ_le_succ (ih (found ▸ List.mem_cons_self))
        · exact Nat.le_succ_of_le (ih (found ▸ List.mem_cons_of_mem _ later))
      · simp_all

end Payload

namespace Item

/-- The text between the first and the last letter. -/
def between (letters : List Char) : List Char := (letters.drop 1).dropLast

/-- Reads the two bounds of an interval. -/
def bounds? (letters : List Char) : Option (Float × Float) :=
  match Payload.splitTopLevel 0 letters with
  | [start, finish] =>
    match Decimal.float? (Text.trim start), Decimal.float? (Text.trim finish) with
    | some start, some finish => some (start, finish)
    | _, _ => none
  | _ => none

def opensInterval (letter : Char) : Bool := letter == '(' || letter == '['
def closesInterval (letter : Char) : Bool := letter == ')' || letter == ']'

/-- Reads a trimmed text as an interval. -/
def interval? (letters : List Char) : Option Item :=
  match letters.head?, letters.getLast? with
  | some first, some last =>
    if opensInterval first && closesInterval last then
      (bounds? (between letters)).map fun (start, finish) =>
        .interval ⟨start, finish, first == '[', last == ']'⟩
    else none
  | _, _ => none

/-- Whether a trimmed text stands between braces. -/
def isBraced (letters : List Char) : Bool :=
  letters.head? == some '\x7b' && letters.getLast? == some '\x7d'

theorem length_trim_le (letters : List Char) : (Text.trim letters).length ≤ letters.length := by
  have start := (List.dropWhile_sublist Text.isBlank (l := letters)).length_le
  have finish := (List.dropWhile_sublist Text.isBlank
    (l := (Text.trimStart letters).reverse)).length_le
  simp only [Text.trim, Text.trimEnd, Text.trimStart, List.length_reverse] at *
  omega

/-- Reads an item; a blank text is none. A text that is neither number, tuple nor interval is an
atom. -/
def parse? (letters : List Char) : Option Item :=
  let trimmed := Text.trim letters
  if trimmed.isEmpty then none
  else match Decimal.float? trimmed with
    | some value => some (.number value)
    | none =>
      if isBraced trimmed then
        some (.tuple ((Payload.splitTopLevel 0 (between trimmed)).attach.filterMap fun
          | ⟨part, _⟩ => parse? part))
      else some ((interval? trimmed).getD (.atom (String.ofList trimmed)))
termination_by letters.length
decreasing_by
  have part := Payload.length_of_mem_splitTopLevel ‹_ ∈ _›
  have shorter : trimmed.length ≤ letters.length := length_trim_le letters
  have filled : 0 < trimmed.length := by
    cases found : trimmed with
    | nil => simp_all
    | cons => simp
  simp only [between, List.length_dropLast, List.length_drop] at part
  omega

theorem parse?_of_tuple {letters : List Char} (notBlank : (Text.trim letters).isEmpty = false)
    (notNumber : Decimal.float? (Text.trim letters) = none)
    (braced : isBraced (Text.trim letters) = true) :
    parse? letters = some (.tuple
      ((Payload.splitTopLevel 0 (between (Text.trim letters))).filterMap parse?)) := by
  rw [parse?]
  simp only [notBlank, notNumber, braced, Bool.false_eq_true, if_false, if_true]
  congr 2
  simp

def Interval.display (bounds : Interval) : String :=
  (if bounds.includesStart then "[" else "(") ++ numberText bounds.start ++ "," ++
    numberText bounds.finish ++ (if bounds.includesFinish then "]" else ")")

mutual

def display : Item → String
  | number value => numberText value
  | atom content => content
  | tuple items => "\x7b" ++ Text.join "," (displayAll items) ++ "\x7d"
  | interval bounds => Interval.display bounds

def displayAll : List Item → List String
  | [] => []
  | item :: rest => item.display :: displayAll rest

end

/-- Whether an interval lies in another one. -/
def Interval.includes (outer inner : Interval) : Bool :=
  (outer.start < inner.start ||
    (outer.start == inner.start && (outer.includesStart || !inner.includesStart))) &&
  (outer.finish > inner.finish ||
    (outer.finish == inner.finish && (outer.includesFinish || !inner.includesFinish)))

def Interval.includesNumber (outer : Interval) (value : Float) : Bool :=
  (if outer.includesStart then outer.start ≤ value else outer.start < value) &&
  (if outer.includesFinish then value ≤ outer.finish else value < outer.finish)

mutual

/-- Whether an item, read as a constraint, accepts another one. -/
def includes : Item → Item → Bool
  | number left, number right => left == right
  | atom left, atom right => left == right
  | tuple left, tuple right => includesAll left right
  | interval left, interval right => Interval.includes left right
  | interval left, number right => Interval.includesNumber left right
  | _, _ => false

/-- One by one, for lists of one length. -/
def includesAll : List Item → List Item → Bool
  | [], [] => true
  | left :: leftRest, right :: rightRest => left.includes right && includesAll leftRest rightRest
  | _, _ => false

end

mutual

/-- Equality with numbers compared as numbers: the zeros are equal and NaN equals nothing. -/
def same : Item → Item → Bool
  | number left, number right => left == right
  | atom left, atom right => left == right
  | tuple left, tuple right => sameAll left right
  | interval left, interval right =>
    left.start == right.start && left.finish == right.finish &&
      left.includesStart == right.includesStart && left.includesFinish == right.includesFinish
  | _, _ => false

def sameAll : List Item → List Item → Bool
  | [], [] => true
  | left :: leftRest, right :: rightRest => left.same right && sameAll leftRest rightRest
  | _, _ => false

end

end Item

namespace Payload

def empty : Payload := ⟨[]⟩

/-- Reads a payload; every text is one. -/
def parse (source : String) : Payload :=
  ⟨(splitTopLevel 0 source.toList).filterMap Item.parse?⟩

def display (payload : Payload) : String := Text.join "," (Item.displayAll payload.items)

def isEmpty (payload : Payload) : Bool := payload.items.isEmpty

/-- The number of a payload that is one number. -/
def asNumber? (payload : Payload) : Option Float :=
  match payload.items with
  | [.number value] => some value
  | _ => none

/-- Whether a payload, read as a constraint, accepts another one. -/
def includes (constraint payload : Payload) : Bool :=
  constraint.isEmpty || Item.includesAll constraint.items payload.items

def same (left right : Payload) : Bool := Item.sameAll left.items right.items

/-- The scalar that a data tree starts with. -/
def toDatum? (payload : Payload) : Option Datum :=
  match payload.items with
  | [] => none
  | [.number value] => some (.number value)
  | [.atom content] => some (.text content)
  | _ => some (.text payload.display)

end Payload

end ConceptLaws
