import Mathlib.Data.List.Basic
import Std.Data.ExtTreeSet

/-! What goes through a list.
A sequence that may fail succeeds exactly if every part of it does, with the results handed on. A
set put together from the parts of a list holds what one of them holds. -/

namespace ConceptLaws

theorem bind_eq_ok {α β ε : Type} {first : Except ε α} {next : α → Except ε β} {result : β} :
    (first >>= next) = .ok result ↔ ∃ value, first = .ok value ∧ next value = .ok result := by
  cases first with
  | error fault => simp [bind, Except.bind]
  | ok value => simp [bind, Except.bind]

/-- A traversal passes where every step passes. -/
theorem forM_eq_ok {α ε : Type} {step : α → Except ε Unit} {list : List α} :
    list.forM step = .ok () ↔ ∀ item ∈ list, step item = .ok () := by
  induction list with
  | nil => simp [List.forM, pure, Except.pure]
  | cons first rest ih =>
    rw [List.forall_mem_cons, ← ih]
    change (step first >>= fun _ => rest.forM step) = .ok () ↔ _
    rw [bind_eq_ok]
    constructor
    · rintro ⟨⟨⟩, head, tail⟩
      exact ⟨head, tail⟩
    · rintro ⟨head, tail⟩
      exact ⟨(), head, tail⟩

theorem mem_foldl_insertMany {α β : Type} [Ord α] [Std.TransOrd α] [BEq α] [LawfulBEq α]
    [Std.LawfulBEqOrd α] {members : β → List α} {items : List β} {value : α}
    (start : Std.ExtTreeSet α) :
    value ∈ items.foldl (fun all item => all.insertMany (members item)) start ↔
      value ∈ start ∨ ∃ item ∈ items, value ∈ members item := by
  induction items generalizing start with
  | nil => simp
  | cons first rest ih =>
    rw [List.foldl_cons, ih, Std.ExtTreeSet.mem_insertMany_list]
    simp [or_assoc]

end ConceptLaws
