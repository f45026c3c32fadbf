import ConceptLaws.Proofs.Arithmetic.Operations
import ConceptLaws.Proofs.Outcome
import ConceptLaws.Proofs.Propagation.Overwriting

/-! Accumulating assignments.
An accumulating action combines what a key holds with a new value by the operator that an expression
of the two values would use, and writes the result as a plain assignment does. The two part in one
place: an expression has no value where a number is not finite, while what is accumulated is not
looked at again. -/

namespace ConceptLaws

namespace Arithmetic

/-- The expression of an operator between two values. -/
def joined (operation : Operator) (left right : Datum) : List Part :=
  [.operand (some left), .source operation.symbol.toString, .operand (some right)]

/-- The last step of an evaluation: a number has to be finite. -/
def onlyFinite : Datum → Except Fault Datum
  | .number value => if value.isFinite then .ok (.number value) else .error .notFinite
  | other => .ok other

theorem tokenize_symbol (operation : Operator) :
    tokenize [operation.symbol] = .ok [.operator operation] := by
  cases operation <;> cbv

theorem tokensOfParts_joined (operation : Operator) (left right : Datum) :
    tokensOfParts (joined operation left right) =
      .ok [.operand left, .operator operation, .operand right] := by
  simp [joined, tokensOfParts, Part.tokens, tokenize_symbol, bind, Except.bind]

/-- Whatever level of the grammar reads the operator, it hands the two values to `combine`. -/
theorem sum_joined (operation : Operator) (left right : Datum) :
    sum (signed 4 maxDepth) 4 [.operand left, .operator operation, .operand right] =
      (combine operation left right).map fun value => (value, []) := by
  have computes (other : operation ≠ .plus) := numeric_eq_combine other left right
  cases combined : combine operation left right <;> cases operation
  all_goals
    simp [sum, sumTail, product, productTail, signed, power, primary, maxDepth, bind, Except.bind,
      Except.map, computes, combined]

/-- An evaluation of an operator between two values is the operator itself, and then the look at
what came out. -/
theorem evaluate_joined (operation : Operator) (left right : Datum) :
    evaluate (joined operation left right) = combine operation left right >>= onlyFinite := by
  unfold evaluate
  rw [tokensOfParts_joined]
  change evaluateTokens [.operand left, .operator operation, .operand right] = _
  unfold evaluateTokens
  dsimp only [List.length_cons, List.length_nil]
  rw [sum_joined]
  cases combine operation left right with
  | error fault => rfl
  | ok value => cases value <;> rfl

theorem onlyFinite_of_finite {number : Float} (finite : number.isFinite = true) :
    onlyFinite (.number number) = .ok (.number number) := if_pos finite

theorem onlyFinite_of_infinite {number : Float} (infinite : number.isFinite = false) :
    onlyFinite (.number number) = .error .notFinite := if_neg (by simp [infinite])

theorem onlyFinite_eq_ok {value result : Datum} (passed : onlyFinite value = .ok result) :
    value = result := by
  unfold onlyFinite at passed
  split at passed
  · split at passed
    · exact Except.ok.inj passed
    · cases passed
  · exact Except.ok.inj passed

theorem onlyFinite_eq_error {value : Datum} {fault : Fault}
    (refused : onlyFinite value = .error fault) :
    fault = .notFinite ∧ ∃ number : Float, number.isFinite = false ∧ value = .number number := by
  unfold onlyFinite at refused
  split at refused
  · rename_i number
    split at refused
    · cases refused
    · rename_i infinite
      exact ⟨(Except.error.inj refused).symm, number, by simpa using infinite, rfl⟩
  · cases refused

variable {operation : Operator} {left right : Datum}

theorem evaluate_of_combine {value : Datum} (combined : combine operation left right = .ok value) :
    evaluate (joined operation left right) = onlyFinite value := by
  rw [evaluate_joined, combined]
  rfl

theorem combine_of_evaluate {result : Datum}
    (evaluated : evaluate (joined operation left right) = .ok result) :
    combine operation left right = .ok result := by
  rw [evaluate_joined] at evaluated
  obtain ⟨value, combined, passed⟩ := bind_eq_ok.1 evaluated
  rw [combined, onlyFinite_eq_ok passed]

/-- An evaluation that fails fails in the operator, or at a number that is not finite. -/
theorem combine_of_fails {fault : Fault}
    (failed : evaluate (joined operation left right) = .error fault) :
    combine operation left right = .error fault ∨
      fault = .notFinite ∧ ∃ number : Float, number.isFinite = false ∧
        combine operation left right = .ok (.number number) := by
  rw [evaluate_joined] at failed
  cases combined : combine operation left right with
  | error other =>
    rw [combined] at failed
    exact Or.inl failed
  | ok value =>
    rw [combined] at failed
    obtain ⟨infinite, number, notFinite, rfl⟩ := onlyFinite_eq_error failed
    exact Or.inr ⟨infinite, number, notFinite, rfl⟩

theorem combine_numbers (operation : Operator) (left right : Float) :
    combine operation (.number left) (.number right) =
      .ok (.number (operation.apply left right)) := by
  simp [combine, numeric, Datum.holdsText, Datum.asNumber?]

/-- The operators themselves know no finite numbers. -/
theorem combine_ne_notFinite (operation : Operator) (left right : Datum) :
    combine operation left right ≠ .error .notFinite := by
  intro failed
  unfold combine at failed
  split at failed
  · cases failed
  · unfold numeric at failed
    split at failed <;> cases failed

end Arithmetic

namespace Command

/-- The operator of an accumulating action. -/
def Action.operator? : Action → Option Arithmetic.Operator
  | increase => some .plus
  | decrease => some .minus
  | scale => some .times
  | _ => none

end Command

namespace Propagation.Network

open Arithmetic Command

variable {network : Network} {action : Action} {operation : Operator} {key : Address}
  {current value : Datum}

theorem applyAction_of_operator? (accumulates : action.operator? = some operation) (key : Address)
    (value : Datum) :
    network.applyAction action key value = network.accumulate operation key value := by
  cases action <;> cases accumulates <;> rfl

theorem accumulate_of_none (empty : network.value? key = none) (value : Datum) :
    network.accumulate operation key value = (network.write key value).2 := by
  unfold accumulate
  rw [empty]

theorem accumulate_of_ok {result : Datum} (held : network.value? key = some current)
    (combined : combine operation current value = .ok result) :
    network.accumulate operation key value = (network.write key result).2 := by
  unfold accumulate
  rw [held]
  dsimp only
  rw [combined]

theorem accumulate_of_error {fault : Fault} (held : network.value? key = some current)
    (failed : combine operation current value = .error fault) :
    network.accumulate operation key value = network := by
  unfold accumulate
  rw [held]
  dsimp only
  rw [failed]

theorem value?_assign (live : (network.tree? key.tree).isSome = true)
    (derived : ¬network.Shielded key) (value : Datum) :
    (network.applyAction .assign key value).value? key = some value :=
  (value?_write value).trans (if_pos ((fst_write value).2 ⟨live, derived⟩))

/-- An accumulating action is the plain assignment of what the expression of the old value, its
operator and the new value evaluates to, and of the new value alone where none is held. Where that
evaluation fails nothing is done, unless it fails only because a number is not finite: such a number
is assigned. An assignment is what the key holds from then on, unless it is primary data. -/
theorem accumulates_evaluated (accumulates : action.operator? = some operation) :
    (network.value? key = none →
      network.applyAction action key value = network.applyAction .assign key value) ∧
    (∀ current result, network.value? key = some current →
      evaluate (joined operation current value) = .ok result →
        network.applyAction action key value = network.applyAction .assign key result) ∧
    (∀ current fault, network.value? key = some current →
      evaluate (joined operation current value) = .error fault → fault ≠ .notFinite →
        network.applyAction action key value = network) ∧
    (∀ current, network.value? key = some current →
      evaluate (joined operation current value) = .error .notFinite →
        ∃ number : Float, number.isFinite = false ∧
          network.applyAction action key value = network.applyAction .assign key (.number number)) ∧
    ∀ result, (network.tree? key.tree).isSome = true → ¬network.Shielded key →
      (network.applyAction .assign key result).value? key = some result := by
  rw [applyAction_of_operator? accumulates]
  refine ⟨fun empty => accumulate_of_none empty value, fun current result held evaluated => ?_,
    fun current fault held failed finite => ?_, fun current held failed => ?_,
    fun result live derived => value?_assign live derived result⟩
  · exact accumulate_of_ok held (combine_of_evaluate evaluated)
  · rcases combine_of_fails failed with stuck | ⟨infinite, -⟩
    · exact accumulate_of_error held stuck
    · exact absurd infinite finite
  · rcases combine_of_fails failed with stuck | ⟨-, number, infinite, combined⟩
    · exact absurd stuck (combine_ne_notFinite operation current value)
    · exact ⟨number, infinite, accumulate_of_ok held combined⟩

/-! ## A key that holds a value -/

def heldKey : Address := ⟨⟨0, 0⟩, ["x"]⟩

/-- A tree in which one key holds a value. -/
def holding (value : Datum) : Network :=
  ((empty 8).create .plain).2.seed heldKey.tree heldKey.path value false

theorem not_shielded_holding (value : Datum) : ¬(holding value).Shielded heldKey := by
  have live : (holding value).tree? heldKey.tree = some
      (((Tree.ofRole .plain).ensure heldKey.path).update heldKey.path fun cell =>
        { cell with value := some value, known := false }) := rfl
  rw [← isUnderKnown_iff live]
  exact Bool.false_ne_true

theorem finite_sum : (2 + 3 : Float).isFinite = true := by decide +kernel

/-- A list of one number counts as that number. -/
theorem accumulates_evaluated_list :
    Action.increase.operator? = some .plus ∧
    (holding (.list [.number 2])).value? heldKey = some (.list [.number 2]) ∧
    evaluate (joined .plus (.list [.number 2]) (.number 3)) = .ok (.number (2 + 3)) ∧
    ((holding (.list [.number 2])).applyAction .increase heldKey (.number 3)).value? heldKey =
      some (.number (2 + 3)) := by
  have held : (holding (.list [.number 2])).value? heldKey = some (.list [.number 2]) := rfl
  have evaluated : evaluate (joined .plus (.list [.number 2]) (.number 3)) =
      .ok (.number (2 + 3)) :=
    (evaluate_of_combine rfl).trans (onlyFinite_of_finite finite_sum)
  obtain ⟨-, agrees, -, -, assigned⟩ := @accumulates_evaluated (holding (.list [.number 2]))
    .increase .plus heldKey (.number 3) rfl
  refine ⟨rfl, held, evaluated, ?_⟩
  rw [agrees _ _ held evaluated]
  exact assigned _ rfl (not_shielded_holding _)

/-- A number so large that ten times as much is not finite. -/
def largeNumber : Float := 1e308

theorem isFinite_largeNumber :
    largeNumber.isFinite = true ∧ (largeNumber * 10).isFinite = false := by
  decide +kernel

/-- A product that is not finite is no value of an expression, and yet it is accumulated. -/
theorem not_forall_left_alone :
    ¬∀ (network : Network) (key : Address) (current value : Datum) (fault : Fault),
      network.value? key = some current →
        evaluate (joined .times current value) = .error fault →
          network.applyAction .scale key value = network := by
  intro leaves
  obtain ⟨finite, infinite⟩ := isFinite_largeNumber
  have combined : combine .times (.number largeNumber) (.number 10) =
      .ok (.number (largeNumber * 10)) := combine_numbers .times largeNumber 10
  have failed : evaluate (joined .times (.number largeNumber) (.number 10)) =
      .error .notFinite := (evaluate_of_combine combined).trans (onlyFinite_of_infinite infinite)
  have held : (holding (.number largeNumber)).value? heldKey = some (.number largeNumber) := rfl
  have same := leaves (holding (.number largeNumber)) heldKey _ _ _ held failed
  have scales : Action.scale.operator? = some .times := rfl
  rw [applyAction_of_operator? scales, accumulate_of_ok held combined] at same
  have scaled : ((holding (.number largeNumber)).write heldKey
      (.number (largeNumber * 10))).2.value? heldKey = some (.number (largeNumber * 10)) :=
    value?_assign rfl (not_shielded_holding _) (.number (largeNumber * 10))
  rw [same, held] at scaled
  have equal : largeNumber = largeNumber * 10 := Datum.number.inj (Option.some.inj scaled)
  exact absurd (finite.symm.trans (congrArg Float.isFinite equal)) (by simp [infinite])

end Propagation.Network

end ConceptLaws
