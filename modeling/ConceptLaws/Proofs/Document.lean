import ConceptLaws.Document
import Mathlib.Data.List.Nodup

/-! Values read back from documents.
A list is read as its values are, one by one; a record whose names are known and all different gives
its fields as they stand; and a table that lists its entries in the order of their keys is read as
the table itself. -/

namespace ConceptLaws

/-! ## Sorted tables and sets -/

theorem ofList_toList_table {α : Type} (table : Std.ExtTreeMap String α) :
    Std.ExtTreeMap.ofList table.toList = table := by
  refine Std.ExtTreeMap.ext_getElem? fun key => ?_
  cases found : table[key]? with
  | some value =>
    exact Std.ExtTreeMap.getElem?_ofList_of_mem Std.compare_self
      Std.ExtTreeMap.distinct_keys_toList (Std.ExtTreeMap.mem_toList_iff_getElem?_eq_some.2 found)
  | none =>
    refine Std.ExtTreeMap.getElem?_ofList_of_contains_eq_false ?_
    simpa [Std.ExtTreeMap.map_fst_toList_eq_keys] using found

theorem ofList_toList_set {kind : IdKind} (set : Std.ExtTreeSet (Identifier kind)) :
    Std.ExtTreeSet.ofList set.toList = set :=
  Std.ExtTreeSet.ext_mem fun id => by simp [Std.ExtTreeSet.mem_ofList]

namespace Document

/-! ## Values -/

theorem identifier?_natural {kind : IdKind} (id : Identifier kind) :
    identifier? (.natural id.toNat) = some id := by
  have small : id.toNat < UInt64.size := id.number.toNat_lt
  have read : natural? (.natural id.toNat) = some id.toNat := if_pos small
  rw [identifier?, read, Option.bind_eq_bind, Option.bind_some, Identifier.ofNat?, if_pos small]
  simp [Identifier.toNat]

theorem text?_text (content : String) : text? (.text content) = some content := rfl

theorem bool?_bool (value : Bool) : bool? (.bool value) = some value := rfl

/-- What is absent is told by null, which must not tell a value. -/
theorem optional?_getD {α : Type} {read : Document → Option α} {document : α → Document}
    (reads : ∀ value, read (document value) = some value)
    (filled : ∀ value, document value ≠ .null) (value : Option α) :
    optional? read ((value.map document).getD .null) = some value := by
  cases value with
  | none => rfl
  | some value =>
    rw [Option.map_some, Option.getD_some]
    unfold optional?
    split
    next null => exact absurd null (filled value)
    · rw [reads, Option.map_some]

theorem list?_map {α β : Type} {read : Document → Option β} {document : α → Document}
    {result : α → β} {values : List α}
    (reads : ∀ value ∈ values, read (document value) = some (result value)) :
    list? read (.list (values.map document)) = some (values.map result) := by
  change (values.map document).mapM read = _
  induction values with
  | nil => rfl
  | cons first rest ih =>
    obtain ⟨here, later⟩ := List.forall_mem_cons.1 reads
    rw [List.map_cons, List.mapM_cons, here, ih later]
    rfl

/-- Reading the values that were written gives the list itself. -/
theorem list?_of_reads {α : Type} {read : Document → Option α} {document : α → Document}
    (reads : ∀ value, read (document value) = some value) (values : List α) :
    list? read (.list (values.map document)) = some values := by
  rw [list?_map fun value _ => reads value, List.map_id']

/-! ## Tables -/

/-- A table is read as its entries put in one after the other. -/
theorem table?_record {α : Type} {read : Document → Option α} {document : α → Document}
    (reads : ∀ value, read (document value) = some value) (table : Std.ExtTreeMap String α) :
    table? read
      (.record (table.toList.map fun entry => (.named entry.1, document entry.2))) =
        some table := by
  have inserted {step : Std.ExtTreeMap String α → FieldName × Document →
        Option (Std.ExtTreeMap String α)}
      (puts : ∀ table key value, step table (.named key, document value) =
        some (table.insert key value)) (entries : List (String × α))
      (start : Std.ExtTreeMap String α) :
      (entries.map fun entry => (FieldName.named entry.1, document entry.2)).foldlM step start =
        some (entries.foldl (fun table entry => table.insert entry.1 entry.2) start) := by
    induction entries generalizing start with
    | nil => rfl
    | cons first rest ih =>
      rw [List.map_cons, List.foldlM_cons, puts]
      exact ih (start.insert first.1 first.2)
  refine (inserted (fun table key value => ?_) table.toList ∅).trans (congrArg some ?_)
  · exact congrArg (Option.map (table.insert key)) (reads value)
  · exact Std.ExtTreeMap.ofList_eq_foldl.symm.trans (ofList_toList_table table)

/-! ## Records -/

/-- A record of known fields with different names gives its fields. -/
theorem fields?_record {names : List String} {document : Document}
    {entries : List (String × Document)}
    (fields : document = .record (entries.map fun entry => (.named entry.1, entry.2)))
    (known : ∀ entry ∈ entries, entry.1 ∈ names) (once : (entries.map Prod.fst).Nodup) :
    fields? names document = some ⟨entries⟩ := by
  rw [fields, fields?, Option.map_eq_some_iff]
  refine ⟨entries, ?_, rfl⟩
  clear fields
  induction entries with
  | nil => rfl
  | cons first rest ih =>
    obtain ⟨here, later⟩ := List.forall_mem_cons.1 known
    obtain ⟨fresh, others⟩ := List.nodup_cons.1 once
    have single : rest.any (·.1 == first.1) = false := by
      refine List.any_eq_false.2 fun entry member same => fresh ?_
      exact eq_of_beq same ▸ List.mem_map_of_mem member
    rw [List.map_cons, collect?, ih later others]
    simp [knownName?, here, single]

end Document

end ConceptLaws
