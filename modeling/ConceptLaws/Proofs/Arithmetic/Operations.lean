import ConceptLaws.Arithmetic.Operation
import Mathlib.Data.List.Basic

/-! What operators, constants and functions mean.
A meaning is a relation between arguments and values: where no value is related, the computation
fails. Operations on floats are taken as they are. -/

namespace ConceptLaws

namespace Datum

mutual

/-- The numbers and texts in a datum, nested lists flattened. -/
def scalars : Datum → List Datum
  | number value => [number value]
  | text content => [text content]
  | list items => scalarsAll items

def scalarsAll : List Datum → List Datum
  | [] => []
  | item :: rest => item.scalars ++ scalarsAll rest

end

end Datum

namespace Arithmetic

/-! ## Operators -/

/-- A sum with a text on either side joins what is shown of both; every other operation is done on
the numeric views of its sides. -/
inductive Operates : Operator → Datum → Datum → Datum → Prop
  | joins {left right : Datum} (text : left.holdsText = true ∨ right.holdsText = true) :
      Operates .plus left right (.text (left.display ++ right.display))
  | computes {operation : Operator} {left right : Datum} {first second : Float}
      (plain : operation = .plus → left.holdsText = false ∧ right.holdsText = false)
      (leftReads : left.asNumber? = some first) (rightReads : right.asNumber? = some second) :
      Operates operation left right (.number (operation.apply first second))

theorem numeric_eq_ok_iff {operation : Operator} {left right value : Datum} :
    numeric operation left right = .ok value ↔ ∃ first second, left.asNumber? = some first ∧
      right.asNumber? = some second ∧ value = .number (operation.apply first second) := by
  unfold numeric
  split
  · rename_i first second reads reads'
    rw [reads, reads', Except.ok.injEq]
    constructor
    · rintro rfl
      exact ⟨first, second, rfl, rfl, rfl⟩
    · rintro ⟨_, _, same, same', rfl⟩
      rw [Option.some.inj same, Option.some.inj same']
  · rename_i unread
    refine iff_of_false nofun ?_
    rintro ⟨first, second, reads, reads', -⟩
    exact unread first second reads reads'

theorem combine_eq_ok_iff {operation : Operator} {left right value : Datum} :
    combine operation left right = .ok value ↔ Operates operation left right value := by
  unfold combine
  split
  · rename_i joined
    simp only [Bool.and_eq_true, Bool.or_eq_true, decide_eq_true_eq] at joined
    obtain ⟨rfl, text⟩ := joined
    rw [Except.ok.injEq]
    constructor
    · rintro rfl
      exact .joins text
    · intro operates
      cases operates with
      | joins => rfl
      | computes plain =>
        obtain ⟨left, right⟩ := plain rfl
        simp [left, right] at text
  · rename_i apart
    rw [numeric_eq_ok_iff]
    constructor
    · rintro ⟨first, second, reads, reads', rfl⟩
      refine .computes (fun sum => ?_) reads reads'
      simpa [sum] using apart
    · intro operates
      cases operates with
      | joins text => simp [text] at apart
      | computes _ reads reads' => exact ⟨_, _, reads, reads', rfl⟩

/-- Operators other than the sum do not look for texts. -/
theorem numeric_eq_combine {operation : Operator} (other : operation ≠ .plus) (left right : Datum) :
    numeric operation left right = combine operation left right := by
  unfold combine
  rw [if_neg (by simp [other])]

theorem negate_eq_ok_iff {argument value : Datum} : negate argument = .ok value ↔
    ∃ number, argument.asNumber? = some number ∧ value = .number (-number) := by
  unfold negate
  split
  · rename_i number reads
    simp [reads, eq_comm]
  · rename_i unread
    simp [unread]

/-! ## Constants and functions -/

def constants : List (String × Float) := [("pi", 3.141592653589793), ("e", 2.718281828459045)]

theorem constant_eq_ok_iff {name : String} {value : Datum} :
    constant name = .ok value ↔ ∃ number, (name, number) ∈ constants ∧ value = .number number := by
  have listed (number : Float) : (name, number) ∈ constants ↔
      name = "pi" ∧ number = 3.141592653589793 ∨ name = "e" ∧ number = 2.718281828459045 := by
    simp [constants]
  simp only [listed]
  unfold constant
  split
  · rename_i known
    simp [known, eq_comm]
  split
  · rename_i known
    simp [known, eq_comm]
  · rename_i other unknown
    simp [other, unknown]

/-- The numbers of all arguments, lists flattened, if every scalar has a numeric view. -/
def numbers? (arguments : List Datum) : Option (List Float) :=
  (Datum.scalarsAll arguments).mapM Datum.asNumber?

def unaryFunctions : List (String × (Float → Float)) :=
  [("abs", Float.abs), ("sqrt", Float.sqrt), ("sin", Float.sin), ("cos", Float.cos),
    ("tan", Float.tan)]

def binaryFunctions : List (String × (Float → Float → Float)) :=
  [("atan2", Float.atan2), ("pow", Float.pow)]

/-- Functions that are carried from the first number over the others. -/
def foldedFunctions : List (String × (Float → Float → Float)) :=
  [("min", least), ("max", greatest)]

/-- What the functions make of their arguments. -/
inductive Applies : String → List Datum → Datum → Prop
  | unary {name : String} {compute : Float → Float} {argument : Datum} {value : Float}
      (known : (name, compute) ∈ unaryFunctions) (reads : numbers? [argument] = some [value]) :
      Applies name [argument] (.number (compute value))
  | binary {name : String} {compute : Float → Float → Float} {left right : Datum}
      {first second : Float} (known : (name, compute) ∈ binaryFunctions)
      (reads : numbers? [left, right] = some [first, second]) :
      Applies name [left, right] (.number (compute first second))
  | folded {name : String} {compute : Float → Float → Float} {arguments : List Datum}
      {first : Float} {rest : List Float} (known : (name, compute) ∈ foldedFunctions)
      (reads : numbers? arguments = some (first :: rest)) :
      Applies name arguments (.number (rest.foldl compute first))
  /-- The sum starts from the neutral element of float addition. -/
  | sum {arguments : List Datum} {values : List Float} (reads : numbers? arguments = some values) :
      Applies "sum" arguments (.number (values.foldl (· + ·) (-0.0)))
  | items {items : List Datum} : Applies "len" [.list items] (.number items.length.toFloat)
  | item {argument : Datum} (scalar : ∀ items, argument ≠ .list items) :
      Applies "len" [argument] (.number 1)

mutual

theorem numbers_eq (name : String) (datum : Datum) : numbers name datum =
    match datum.scalars.mapM Datum.asNumber? with
    | some values => .ok values
    | none => .error (.notNumeric name) := by
  cases datum with
  | number value => simp [numbers, Datum.scalars, Datum.asNumber?]
  | text content =>
    cases reads : numberOfText? content <;>
      simp [numbers, Datum.scalars, Datum.asNumber?, reads]
  | list items =>
    rw [numbers, Datum.scalars]
    exact numbersOfAll_eq name items

theorem numbersOfAll_eq (name : String) (arguments : List Datum) : numbersOfAll name arguments =
    match numbers? arguments with
    | some values => .ok values
    | none => .error (.notNumeric name) := by
  cases arguments with
  | nil => simp [numbersOfAll, numbers?, Datum.scalarsAll]
  | cons first rest =>
    have firstNumbers := numbers_eq name first
    have restNumbers := numbersOfAll_eq name rest
    rw [numbersOfAll, firstNumbers, restNumbers]
    unfold numbers?
    rw [Datum.scalarsAll, List.mapM_append]
    cases first.scalars.mapM Datum.asNumber? with
    | none => rfl
    | some values =>
      cases (Datum.scalarsAll rest).mapM Datum.asNumber? with
      | none => rfl
      | some others => rfl

end

theorem callUnary_eq_ok_iff {name : String} {compute : Float → Float} {arguments : List Datum}
    {value : Datum} : callUnary name compute arguments = .ok value ↔ ∃ argument number,
      arguments = [argument] ∧ numbers? arguments = some [number] ∧
        value = .number (compute number) := by
  unfold callUnary
  rw [numbersOfAll_eq]
  constructor
  · intro called
    cases reads : numbers? arguments with
    | none => simp [reads] at called
    | some values =>
      simp only [reads] at called
      split at called
      · cases called
      · rename_i number same
        split at called
        · rename_i single
          obtain ⟨argument, rfl⟩ := List.length_eq_one_iff.1 single
          exact ⟨argument, number, rfl, Except.ok.inj same ▸ rfl, (Except.ok.inj called).symm⟩
        · cases called
      · cases called
  · rintro ⟨argument, number, rfl, reads, rfl⟩
    simp [reads]

theorem callBinary_eq_ok_iff {name : String} {compute : Float → Float → Float}
    {arguments : List Datum} {value : Datum} : callBinary name compute arguments = .ok value ↔
      ∃ left right first second, arguments = [left, right] ∧
        numbers? arguments = some [first, second] ∧ value = .number (compute first second) := by
  unfold callBinary
  rw [numbersOfAll_eq]
  constructor
  · intro called
    cases reads : numbers? arguments with
    | none => simp [reads] at called
    | some values =>
      simp only [reads] at called
      split at called
      · cases called
      · rename_i first second same
        split at called
        · rename_i double
          obtain ⟨left, right, rfl⟩ := List.length_eq_two.1 double
          exact ⟨left, right, first, second, rfl, Except.ok.inj same ▸ rfl,
            (Except.ok.inj called).symm⟩
        · cases called
      · cases called
  · rintro ⟨left, right, first, second, rfl, reads, rfl⟩
    simp [reads]

theorem callFold_eq_ok_iff {name : String} {compute : Float → Float → Float}
    {arguments : List Datum} {value : Datum} : callFold name compute arguments = .ok value ↔
      ∃ first rest, numbers? arguments = some (first :: rest) ∧
        value = .number (rest.foldl compute first) := by
  unfold callFold
  rw [numbersOfAll_eq]
  cases numbers? arguments with
  | none => simp
  | some values =>
    cases values with
    | nil => simp
    | cons first rest =>
      constructor
      · intro called
        exact ⟨first, rest, rfl, (Except.ok.inj called).symm⟩
      · rintro ⟨_, _, same, rfl⟩
        obtain ⟨rfl, rfl⟩ := List.cons.inj (Option.some.inj same)
        rfl

theorem callSum_eq_ok_iff {name : String} {arguments : List Datum} {value : Datum} :
    callSum name arguments = .ok value ↔ ∃ values, numbers? arguments = some values ∧
      value = .number (values.foldl (· + ·) (-0.0)) := by
  unfold callSum
  rw [numbersOfAll_eq]
  cases numbers? arguments <;> simp [eq_comm]

theorem callLength_eq_ok_iff {name : String} {arguments : List Datum} {value : Datum} :
    callLength name arguments = .ok value ↔
      (∃ items, arguments = [.list items] ∧ value = .number items.length.toFloat) ∨
      ∃ argument, arguments = [argument] ∧ (∀ items, argument ≠ .list items) ∧
        value = .number 1 := by
  unfold callLength
  split
  · simp [eq_comm]
  · rename_i argument scalar
    have scalar : ∀ items, argument ≠ .list items := fun items same => scalar items (by rw [same])
    simp [scalar, eq_comm]
  · rename_i others several
    refine iff_of_false nofun ?_
    rintro (⟨items, same, -⟩ | ⟨argument, same, -⟩)
    · exact several _ same
    · exact several _ same

theorem call_eq_ok_iff {name : String} {arguments : List Datum} {value : Datum} :
    call name arguments = .ok value ↔ Applies name arguments value := by
  constructor
  · intro called
    have unary {name : String} {compute : Float → Float}
        (known : (name, compute) ∈ unaryFunctions)
        (called : callUnary name compute arguments = .ok value) :
        Applies name arguments value := by
      obtain ⟨argument, number, rfl, reads, rfl⟩ := callUnary_eq_ok_iff.1 called
      exact .unary known reads
    have binary {name : String} {compute : Float → Float → Float}
        (known : (name, compute) ∈ binaryFunctions)
        (called : callBinary name compute arguments = .ok value) :
        Applies name arguments value := by
      obtain ⟨left, right, first, second, rfl, reads, rfl⟩ := callBinary_eq_ok_iff.1 called
      exact .binary known reads
    have folded {name : String} {compute : Float → Float → Float}
        (known : (name, compute) ∈ foldedFunctions)
        (called : callFold name compute arguments = .ok value) :
        Applies name arguments value := by
      obtain ⟨first, rest, reads, rfl⟩ := callFold_eq_ok_iff.1 called
      exact .folded known reads
    unfold call at called
    split at called
    · exact unary (by simp [unaryFunctions]) called
    · exact unary (by simp [unaryFunctions]) called
    · exact unary (by simp [unaryFunctions]) called
    · exact unary (by simp [unaryFunctions]) called
    · exact unary (by simp [unaryFunctions]) called
    · exact binary (by simp [binaryFunctions]) called
    · exact binary (by simp [binaryFunctions]) called
    · exact folded (by simp [foldedFunctions]) called
    · exact folded (by simp [foldedFunctions]) called
    · obtain ⟨values, reads, rfl⟩ := callSum_eq_ok_iff.1 called
      exact .sum reads
    · rcases callLength_eq_ok_iff.1 called with ⟨items, rfl, rfl⟩ | ⟨argument, rfl, scalar, rfl⟩
      · exact .items
      · exact .item scalar
    · cases called
  · intro applies
    cases applies with
    | @unary _ compute argument number known reads =>
      have computed (name : String) : callUnary name compute [argument] =
          .ok (.number (compute number)) :=
        callUnary_eq_ok_iff.2 ⟨argument, number, rfl, reads, rfl⟩
      simp only [unaryFunctions, List.mem_cons, Prod.mk.injEq, List.not_mem_nil, or_false] at known
      rcases known with ⟨rfl, rfl⟩ | ⟨rfl, rfl⟩ | ⟨rfl, rfl⟩ | ⟨rfl, rfl⟩ | ⟨rfl, rfl⟩
      all_goals exact computed _
    | @binary _ compute left right first second known reads =>
      have computed (name : String) : callBinary name compute [left, right] =
          .ok (.number (compute first second)) :=
        callBinary_eq_ok_iff.2 ⟨left, right, first, second, rfl, reads, rfl⟩
      simp only [binaryFunctions, List.mem_cons, Prod.mk.injEq, List.not_mem_nil, or_false] at known
      rcases known with ⟨rfl, rfl⟩ | ⟨rfl, rfl⟩
      all_goals exact computed _
    | @folded _ compute _ first rest known reads =>
      have computed (name : String) : callFold name compute arguments =
          .ok (.number (rest.foldl compute first)) :=
        callFold_eq_ok_iff.2 ⟨first, rest, reads, rfl⟩
      simp only [foldedFunctions, List.mem_cons, Prod.mk.injEq, List.not_mem_nil, or_false] at known
      rcases known with ⟨rfl, rfl⟩ | ⟨rfl, rfl⟩
      all_goals exact computed _
    | sum reads => exact callSum_eq_ok_iff.2 ⟨_, reads, rfl⟩
    | items => rfl
    | item scalar => exact callLength_eq_ok_iff.2 (Or.inr ⟨_, rfl, scalar, rfl⟩)

end Arithmetic

end ConceptLaws
