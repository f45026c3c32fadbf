import ConceptLaws.Cbor
import Mathlib.Tactic.Ring

/-! Documents read back from their bytes.
Every head tells its number at each of its widths, so what is written in front of any other bytes is
read off again and leaves those bytes. Documents nest at most as deep as the reader follows, and
their lengths fit a machine word as soon as all their bytes do. -/

namespace ConceptLaws.Cbor

/-! ## Numbers -/

theorem bigEndian_succ (length value : Nat) : Sha256.bigEndian (length + 1) value =
    (value >>> (8 * length)).toUInt8 :: Sha256.bigEndian length value := by
  simp [Sha256.bigEndian, List.range_succ]

theorem length_bigEndian (length value : Nat) :
    (Sha256.bigEndian length value).length = length := by
  simp [Sha256.bigEndian]

theorem foldl_bigEndian (length value total : Nat) :
    (Sha256.bigEndian length value).foldl (fun total byte => total * 256 + byte.toNat) total =
      total * 256 ^ length + value % 256 ^ length := by
  induction length generalizing total with
  | zero => simp [Sha256.bigEndian, Nat.mod_one]
  | succ length ih =>
    have byte : (value >>> (8 * length)).toUInt8.toNat = value / 256 ^ length % 256 := by
      rw [Nat.toUInt8_eq, UInt8.toNat_ofNat', Nat.shiftRight_eq_div_pow, pow_mul]
      rfl
    rw [bigEndian_succ, List.foldl_cons, ih, byte, Nat.mod_pow_succ]
    ring

theorem takeBytes?_append (taken rest : Bytes) :
    takeBytes? taken.length (taken ++ rest) = some (taken, rest) := by
  simp [takeBytes?]

/-- So many bytes tell a number that fits them. -/
theorem ofBigEndian_bigEndian {length value : Nat} (small : value < 256 ^ length) :
    ofBigEndian (Sha256.bigEndian length value) = value := by
  unfold ofBigEndian
  rw [foldl_bigEndian, Nat.mod_eq_of_lt small, zero_mul, zero_add]

/-- The four widths of a number that does not stand in the first byte. -/
theorem argument?_wide {low length value : Nat}
    (width : (low, length) ∈ [(24, 1), (25, 2), (26, 4), (27, 8)]) (small : value < 256 ^ length)
    (rest : Bytes) :
    argument? low (Sha256.bigEndian length value ++ rest) = some (value, rest) := by
  have taken := takeBytes?_append (Sha256.bigEndian length value) rest
  rw [length_bigEndian] at taken
  simp only [List.mem_cons, Prod.mk.injEq, List.not_mem_nil, or_false] at width
  rcases width with ⟨rfl, rfl⟩ | ⟨rfl, rfl⟩ | ⟨rfl, rfl⟩ | ⟨rfl, rfl⟩ <;>
    simp [argument?, taken, ofBigEndian_bigEndian small]

/-- A head starts with a byte for its major type and its width, and its number is read off the
bytes that follow. -/
theorem head_eq (major : Nat) {value : Nat} (small : value < 2 ^ 64) :
    ∃ low tail, head major value = (major * 32 + low).toUInt8 :: tail ∧ low < 28 ∧
      ∀ rest, argument? low (tail ++ rest) = some (value, rest) := by
  unfold head
  dsimp only
  split
  next short => exact ⟨value, [], rfl, by omega, fun rest => by simp [argument?, short]⟩
  split
  next one => exact ⟨24, _, rfl, by decide, argument?_wide (by decide) one⟩
  split
  next two => exact ⟨25, _, rfl, by decide, argument?_wide (by decide) two⟩
  split
  next four => exact ⟨26, _, rfl, by decide, argument?_wide (by decide) four⟩
  · exact ⟨27, _, rfl, by decide, argument?_wide (by decide) small⟩

theorem head_ne_nil (major value : Nat) : head major value ≠ [] := by
  unfold head
  dsimp only
  repeat' split
  all_goals simp

theorem toNat_first {major low : Nat} (type : major < 8) (width : low < 32) :
    (major * 32 + low).toUInt8.toNat / 32 = major ∧
      (major * 32 + low).toUInt8.toNat % 32 = low := by
  rw [Nat.toUInt8_eq, UInt8.toNat_ofNat']
  omega

/-! ## Texts -/

theorem toList_loop (bytes : ByteArray) (place : Nat) (taken : List UInt8) :
    ByteArray.toList.loop bytes place taken = taken.reverse ++ bytes.data.toList.drop place := by
  fun_induction ByteArray.toList.loop bytes place taken with
  | case1 place taken inside ih =>
    have inside : place < bytes.data.toList.length := inside
    have here : bytes.get! place = bytes.data.toList[place] := by
      exact getElem!_pos bytes.data place inside
    rw [ih, List.drop_eq_getElem_cons inside, List.reverse_cons, List.append_assoc,
      List.singleton_append, here]
  | case2 place taken outside =>
    have outside : bytes.data.toList.length ≤ place := Nat.le_of_not_lt outside
    rw [List.drop_eq_nil_of_le outside, List.append_nil]

/-- A text is told by its bytes. -/
theorem textOf?_textBytes (content : String) :
    textOf? (Fingerprint.textBytes content) = some content := by
  have bytes : ByteArray.mk (Fingerprint.textBytes content).toArray = content.toByteArray := by
    rw [Fingerprint.textBytes, ByteArray.toList, toList_loop]
    simp
  unfold textOf? String.fromUTF8?
  rw [bytes, dif_pos content.isValidUTF8]
  rfl

/-! ## Documents -/

end ConceptLaws.Cbor

namespace ConceptLaws.Document

/-- A document made of names, texts, numbers of one word and truth values, with lists and records no
deeper in one another than given. -/
inductive Writable : Nat → Document → Prop
  | null (depth : Nat) : Writable depth .null
  | bool (depth : Nat) (value : Bool) : Writable depth (.bool value)
  | natural (depth : Nat) {value : Nat} (small : value < 2 ^ 64) : Writable depth (.natural value)
  | text (depth : Nat) (content : String) : Writable depth (.text content)
  | list {depth : Nat} {items : List Document} (each : ∀ item ∈ items, Writable depth item) :
      Writable (depth + 1) (.list items)
  | record {depth : Nat} {fields : List (FieldName × Document)}
      (named : ∀ field ∈ fields, ∃ name, field.1 = .named name)
      (each : ∀ field ∈ fields, Writable depth field.2) : Writable (depth + 1) (.record fields)

theorem writable_identifier {kind : IdKind} (depth : Nat) (id : Identifier kind) :
    Writable depth (.natural id.toNat) := .natural depth id.number.toNat_lt

theorem writable_optional {α : Type} {depth : Nat} {document : α → Document}
    (each : ∀ value, Writable depth (document value)) (value : Option α) :
    Writable depth ((value.map document).getD .null) := by
  cases value with
  | none => exact .null depth
  | some value => exact each value

theorem writable_list {α : Type} {depth : Nat} {document : α → Document}
    (each : ∀ value, Writable depth (document value)) (values : List α) :
    Writable (depth + 1) (.list (values.map document)) :=
  .list (List.forall_mem_map.2 fun value _ => each value)

end ConceptLaws.Document

namespace ConceptLaws.Cbor

/-- An item that holds no others is read at any depth. -/
theorem item?_leaf {major low : Nat} (type : major < 4 ∨ major = 7) (width : low < 32)
    (depth : Nat) (rest : Bytes) :
    item? depth ((major * 32 + low).toUInt8 :: rest) = leaf? major low rest := by
  obtain ⟨same, bits⟩ := @toNat_first major low (by omega) width
  cases depth with
  | zero => rw [item?, same, bits]
  | succ depth =>
    rw [item?]
    dsimp only
    rw [same, bits]
    split <;> first | omega | rfl

/-- The other items are read at a depth that is less by one. -/
theorem item?_list {low : Nat} (width : low < 32) (depth : Nat) (rest : Bytes) :
    item? (depth + 1) ((4 * 32 + low).toUInt8 :: rest) = list? (item? depth) low rest := by
  obtain ⟨same, bits⟩ := @toNat_first 4 low (by decide) width
  simp only [item?, same, bits]

theorem item?_map {low : Nat} (width : low < 32) (depth : Nat) (rest : Bytes) :
    item? (depth + 1) ((5 * 32 + low).toUInt8 :: rest) = map? (item? depth) low rest := by
  obtain ⟨same, bits⟩ := @toNat_first 5 low (by decide) width
  simp only [item?, same, bits]

theorem item?_writeText {content : String} (fits : (Fingerprint.textBytes content).length < 2 ^ 64)
    (depth : Nat) (rest : Bytes) :
    item? depth (writeText content ++ rest) = some (.text content, rest) := by
  obtain ⟨low, tail, spelled, width, argument⟩ := head_eq 3 fits
  rw [writeText, spelled, List.append_assoc, List.cons_append, item?_leaf (by decide) (by omega)]
  have chunked : low ≠ 31 := by omega
  simp [leaf?, string?, chunked, argument, takeBytes?_append, textOf?_textBytes]

theorem items?_writeItems {item : ItemReader} {items : List Document}
    (reads : ∀ document ∈ items, ∀ rest, item (write document ++ rest) = some (document, rest))
    (rest : Bytes) : items? item items.length (writeItems items ++ rest) = some (items, rest) := by
  induction items with
  | nil => simp [items?, writeItems]
  | cons first others ih =>
    obtain ⟨here, later⟩ := List.forall_mem_cons.1 reads
    simp [items?, writeItems, List.append_assoc, here, ih later]

theorem fields?_writeFields {item : ItemReader} {fields : List (FieldName × Document)}
    (names : ∀ field ∈ fields, ∃ name, field.1 = .named name ∧
      ∀ rest, item (writeText name ++ rest) = some (.text name, rest))
    (reads : ∀ field ∈ fields, ∀ rest, item (write field.2 ++ rest) = some (field.2, rest))
    (rest : Bytes) :
    fields? item fields.length (writeFields fields ++ rest) = some (fields, rest) := by
  induction fields with
  | nil => simp [fields?, writeFields]
  | cons first others ih =>
    obtain ⟨⟨name, named, key⟩, laterNames⟩ := List.forall_mem_cons.1 names
    obtain ⟨here, later⟩ := List.forall_mem_cons.1 reads
    obtain ⟨label, value⟩ := first
    dsimp only at named here
    subst named
    simp [fields?, writeFields, field?, writeName, List.append_assoc, key, here, nameOf,
      ih laterNames later]

/-! ## Lengths -/

theorem write_ne_nil (document : Document) : write document ≠ [] := by
  cases document with
  | bool value => cases value <;> simp [write]
  | _ => simp [write, writeText, head_ne_nil]

theorem length_writeItems (items : List Document) : items.length ≤ (writeItems items).length ∧
    ∀ document ∈ items, (write document).length ≤ (writeItems items).length := by
  induction items with
  | nil => simp
  | cons first rest ih =>
    have some := List.length_pos_iff.2 (write_ne_nil first)
    simp only [writeItems, List.length_append, List.length_cons, List.forall_mem_cons]
    exact ⟨by omega, by omega, fun document member => (ih.2 document member).trans (by omega)⟩

theorem length_writeFields (fields : List (FieldName × Document)) :
    fields.length ≤ (writeFields fields).length ∧ ∀ field ∈ fields,
      (writeName field.1).length + (write field.2).length ≤ (writeFields fields).length := by
  induction fields with
  | nil => simp
  | cons first rest ih =>
    have some := List.length_pos_iff.2 (write_ne_nil first.2)
    obtain ⟨label, value⟩ := first
    simp only [writeFields, List.length_append, List.length_cons, List.forall_mem_cons]
    dsimp only at some
    exact ⟨by omega, by omega, fun field member => (ih.2 field member).trans (by omega)⟩

/-- A document is read off the bytes that it is written as. -/
theorem item?_write {depth : Nat} {document : Document} (writable : document.Writable depth)
    (fits : (write document).length < 2 ^ 64) (rest : Bytes) :
    item? depth (write document ++ rest) = some (document, rest) := by
  induction writable generalizing rest with
  | null depth => exact @item?_leaf 7 22 (by decide) (by decide) depth rest
  | bool depth value =>
    cases value with
    | false => exact @item?_leaf 7 20 (by decide) (by decide) depth rest
    | true => exact @item?_leaf 7 21 (by decide) (by decide) depth rest
  | @natural depth value small =>
    obtain ⟨low, tail, spelled, width, argument⟩ := head_eq 0 small
    rw [write, spelled, List.cons_append, item?_leaf (by decide) (by omega)]
    simp [leaf?, argument]
  | text depth content =>
    rw [write, writeText, List.length_append] at fits
    exact item?_writeText (by omega) depth rest
  | @list depth items each ih =>
    rw [write, List.length_append] at fits
    obtain ⟨count, within⟩ := length_writeItems items
    obtain ⟨low, tail, spelled, width, argument⟩ := head_eq 4 (show items.length < 2 ^ 64 by omega)
    have reads : ∀ document ∈ items, ∀ rest,
        item? depth (write document ++ rest) = some (document, rest) := fun document member =>
      ih document member ((within document member).trans_lt (by omega))
    rw [write, spelled, List.append_assoc, List.cons_append, item?_list (by omega), list?,
      if_neg (by omega), argument]
    simp [items?_writeItems reads]
  | @record depth fields named each ih =>
    rw [write, List.length_append] at fits
    obtain ⟨count, within⟩ := length_writeFields fields
    obtain ⟨low, tail, spelled, width, argument⟩ := head_eq 5 (show fields.length < 2 ^ 64 by omega)
    have reads : ∀ field ∈ fields, ∀ rest,
        item? depth (write field.2 ++ rest) = some (field.2, rest) := fun field member => by
      have short := within field member
      exact ih field member (by omega)
    have names : ∀ field ∈ fields, ∃ name, field.1 = .named name ∧
        ∀ rest, item? depth (writeText name ++ rest) = some (.text name, rest) := by
      intro field member
      obtain ⟨name, same⟩ := named field member
      have short := within field member
      rw [same, writeName, writeText, List.length_append] at short
      exact ⟨name, same, item?_writeText (by omega) depth⟩
    rw [write, spelled, List.append_assoc, List.cons_append, item?_map (by omega), map?,
      if_neg (by omega), argument]
    simp [fields?_writeFields names reads]

/-- Bytes that hold one document are read as it. -/
theorem read?_write {document : Document} (writable : document.Writable 127)
    (fits : (write document).length < 2 ^ 64) : read? (write document) = some document := by
  have read := item?_write writable fits []
  rw [List.append_nil] at read
  rw [read?, read]

end ConceptLaws.Cbor
