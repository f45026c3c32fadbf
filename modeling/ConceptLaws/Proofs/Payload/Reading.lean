import ConceptLaws.Proofs.Decimal.ReadingBack
import ConceptLaws.Proofs.Payload.Splitting

/-! Payloads read back from their text.
The text of a payload is thinner than the source it was read from, so it is cut at the same places
at every depth, and reads back as the same items. The one thing that a text does not tell is the
sign of a zero. -/

namespace ConceptLaws

open Payload (IsPlain Thins Separable splitTopLevel thins_refl thins_trim thins_of_plain
  thins_intercalate isPlain_of_isBlank)

/-! ## Numbers -/

/-- A number without the sign of a zero. -/
def unsignedZero (value : Float) : Float := if value == 0 then 0 else value

/-- Equality up to the sign of a zero. -/
def SameNumber (left right : Float) : Prop := left = right ∨ left == 0 ∧ right == 0

theorem unsigned_zero : ((0 : Float) == 0) = true := by decide +kernel

theorem sameNumber_iff {left right : Float} :
    SameNumber left right ↔ unsignedZero left = unsignedZero right := by
  unfold SameNumber unsignedZero
  constructor
  · rintro (rfl | ⟨zeroLeft, zeroRight⟩)
    · rfl
    · rw [if_pos zeroLeft, if_pos zeroRight]
  · intro same
    split at same <;> split at same
    next zeroLeft zeroRight => exact .inr ⟨zeroLeft, zeroRight⟩
    next nonzero => exact absurd (same ▸ unsigned_zero) nonzero
    next nonzero _ => exact absurd (same ▸ unsigned_zero) nonzero
    next => exact .inl same

theorem sameNumber_unsignedZero (value : Float) : SameNumber (unsignedZero value) value := by
  unfold unsignedZero
  split
  next zero => exact .inr ⟨unsigned_zero, zero⟩
  · exact .inl rfl

theorem numberText_unsignedZero (value : Float) :
    numberText (unsignedZero value) = numberText value := by
  unfold unsignedZero
  split
  next zero => rw [numberText, numberText, if_pos unsigned_zero, if_pos zero]
  · rfl

theorem float?_numberText (value : Float) :
    Decimal.float? (numberText value).toList = some (unsignedZero value) := by
  unfold numberText unsignedZero
  split
  · decide +kernel
  · exact Decimal.float?_text value

theorem Decimal.isPlain_of_isNumeric {letter : Char} (numeric : Decimal.IsNumeric letter) :
    IsPlain letter := by
  intro special
  simp only [List.mem_cons, List.not_mem_nil, or_false] at special
  revert numeric
  rcases special with rfl | rfl | rfl | rfl | rfl | rfl | rfl <;> decide

theorem plain_of_float? {letters : List Char} {value : Float}
    (read : Decimal.float? letters = some value) : ∀ letter ∈ letters, IsPlain letter :=
  fun letter member =>
    Decimal.isPlain_of_isNumeric ((Decimal.numeric_of_float? read).2 letter member)

theorem trim_of_float? {letters : List Char} {value : Float}
    (read : Decimal.float? letters = some value) : Text.trim letters = letters := by
  have blankless : ∀ letter ∈ letters, Text.isBlank letter = false := fun letter member =>
    Decimal.isBlank_of_isNumeric ((Decimal.numeric_of_float? read).2 letter member)
  exact Text.trim_eq_self (fun letter first => blankless letter (List.mem_of_head? first))
    fun letter last => blankless letter (List.mem_of_getLast? last)

/-- Blanks around a numeral are plain too. -/
theorem plain_of_float?_trim {letters : List Char} {value : Float}
    (read : Decimal.float? (Text.trim letters) = some value) :
    ∀ letter ∈ letters, IsPlain letter := by
  obtain ⟨before, after, spelled, blankBefore, blankAfter⟩ := Payload.exists_blanks_trim letters
  rw [spelled]
  exact List.forall_mem_append.2 ⟨List.forall_mem_append.2
    ⟨fun letter member => isPlain_of_isBlank (blankBefore letter member), plain_of_float? read⟩,
    fun letter member => isPlain_of_isBlank (blankAfter letter member)⟩

namespace Item

/-! ## Items without the signs of zeros -/

def Interval.unsigned (bounds : ConceptLaws.Interval) : ConceptLaws.Interval :=
  { bounds with start := unsignedZero bounds.start, finish := unsignedZero bounds.finish }

mutual

def unsigned : Item → Item
  | number value => number (unsignedZero value)
  | atom content => atom content
  | tuple items => tuple (unsignedAll items)
  | interval bounds => interval (Interval.unsigned bounds)

def unsignedAll : List Item → List Item
  | [] => []
  | item :: rest => item.unsigned :: unsignedAll rest

end

theorem unsignedAll_eq_map (items : List Item) : unsignedAll items = items.map unsigned := by
  induction items with
  | nil => rfl
  | cons item rest ih => rw [unsignedAll, ih, List.map_cons]

theorem displayAll_eq_map (items : List Item) : displayAll items = items.map display := by
  induction items with
  | nil => rfl
  | cons item rest ih => rw [displayAll, ih, List.map_cons]

/-- The letters of an item. -/
def letters (item : Item) : List Char := item.display.toList

theorem toList_join_displayAll (items : List Item) :
    (Text.join "," (displayAll items)).toList = [','].intercalate (items.map letters) := by
  rw [Text.join, String.toList_intercalate, displayAll_eq_map, List.map_map]
  rfl

theorem letters_tuple (items : List Item) : (tuple items).letters =
    '\x7b' :: ([','].intercalate (items.map letters) ++ ['\x7d']) := by
  rw [← toList_join_displayAll]
  simp [letters, display]

def openingOf (bounds : ConceptLaws.Interval) : Char := if bounds.includesStart then '[' else '('
def closingOf (bounds : ConceptLaws.Interval) : Char := if bounds.includesFinish then ']' else ')'

theorem letters_interval (bounds : ConceptLaws.Interval) : (interval bounds).letters =
    openingOf bounds :: (((numberText bounds.start).toList ++
      ',' :: (numberText bounds.finish).toList) ++ [closingOf bounds]) := by
  simp only [letters, display, Interval.display, openingOf, closingOf]
  cases bounds.includesStart <;> cases bounds.includesFinish <;> simp

/-! ## Reading items -/

theorem parse?_eq (letters : List Char) : parse? letters =
    if (Text.trim letters).isEmpty then none
    else match Decimal.float? (Text.trim letters) with
      | some value => some (.number value)
      | none =>
        if isBraced (Text.trim letters) then
          some (.tuple ((splitTopLevel 0 (between (Text.trim letters))).filterMap parse?))
        else some ((interval? (Text.trim letters)).getD
          (.atom (String.ofList (Text.trim letters)))) := by
  have detached (parts : List (List Char)) : (parts.attach.filterMap fun
      | ⟨part, _⟩ => parse? part) = parts.filterMap parse? := by simp
  rw [parse?]
  cases Decimal.float? (Text.trim letters) with
  | some value => rfl
  | none => simp only [detached]

/-- Blanks around an item do not count. -/
theorem parse?_trim (letters : List Char) : parse? (Text.trim letters) = parse? letters := by
  rw [parse?_eq, parse?_eq letters, Text.trim_trim]

/-- Brackets and what stands between them. -/
theorem bracketed {letters : List Char} {first last : Char} (starts : letters.head? = some first)
    (ends : letters.getLast? = some last) (apart : first ≠ last) :
    letters = first :: (between letters ++ [last]) := by
  cases letters with
  | nil => cases starts
  | cons head rest =>
    cases starts
    have filled : rest ≠ [] := by
      rintro rfl
      exact apart (Option.some.inj ends)
    rw [List.getLast?_cons_of_ne_nil filled] at ends
    simp only [between, List.drop_succ_cons, List.drop_zero]
    rw [List.cons_inj_right, List.dropLast_append_getLast? last ends]

theorem between_bracketed (first last : Char) (letters : List Char) :
    between (first :: (letters ++ [last])) = letters := by
  simp [between]

theorem head?_bracketed (first last : Char) (letters : List Char) :
    (first :: (letters ++ [last])).head? = some first := rfl

theorem getLast?_bracketed (first last : Char) (letters : List Char) :
    (first :: (letters ++ [last])).getLast? = some last := by
  rw [List.getLast?_cons, List.getLast?_concat]
  rfl

/-- A text between brackets is no numeral and has no blanks at its ends. -/
theorem bracket_not_numeric {letter : Char} (bracket : ¬ IsPlain letter) :
    ¬ Decimal.IsNumeric letter ∧ Text.isBlank letter = false :=
  ⟨fun numeric => bracket (Decimal.isPlain_of_isNumeric numeric),
    Bool.eq_false_iff.2 fun blank => bracket (isPlain_of_isBlank blank)⟩

theorem trim_bracketed {first last : Char} (opens : ¬ IsPlain first) (closes : ¬ IsPlain last)
    (letters : List Char) :
    Text.trim (first :: (letters ++ [last])) = first :: (letters ++ [last]) := by
  refine Text.trim_eq_self (fun letter here => ?_) (fun letter here => ?_)
  · rw [head?_bracketed, Option.mem_some_iff] at here
    exact here ▸ (bracket_not_numeric opens).2
  · rw [getLast?_bracketed, Option.mem_some_iff] at here
    exact here ▸ (bracket_not_numeric closes).2

theorem float?_bracketed {first : Char} (opens : ¬ IsPlain first) (letters : List Char) :
    Decimal.float? (first :: letters) = none := by
  refine Option.eq_none_iff_forall_ne_some.2 fun value read => ?_
  exact (bracket_not_numeric opens).1 ((Decimal.numeric_of_float? read).2 first List.mem_cons_self)

/-- Reading a text between braces. -/
theorem parse?_braces (letters : List Char) : parse? ('\x7b' :: (letters ++ ['\x7d'])) =
    some (.tuple ((splitTopLevel 0 letters).filterMap parse?)) := by
  have opens : ¬ IsPlain '\x7b' := by decide
  have closes : ¬ IsPlain '\x7d' := by decide
  rw [parse?_eq, trim_bracketed opens closes, float?_bracketed opens, between_bracketed]
  simp [isBraced, getLast?_bracketed]

/-- Reading two numbers between the brackets of an interval. -/
theorem parse?_brackets (bounds : ConceptLaws.Interval) {start finish : List Char}
    (readStart : Decimal.float? (Text.trim start) = some bounds.start)
    (readFinish : Decimal.float? (Text.trim finish) = some bounds.finish) :
    parse? (openingOf bounds :: ((start ++ ',' :: finish) ++ [closingOf bounds])) =
      some (.interval bounds) := by
  have opens : ¬ IsPlain (openingOf bounds) := by unfold openingOf; split <;> decide
  have closes : ¬ IsPlain (closingOf bounds) := by unfold closingOf; split <;> decide
  have parts : splitTopLevel 0 (start ++ ',' :: finish) = [start, finish] := by
    have solid := Payload.plain_nest (plain_of_float?_trim readStart) 0
    rw [Payload.splitTopLevel_append solid.2 solid.1, Payload.splitTopLevel_of_solid
      (Payload.plain_nest (plain_of_float?_trim readFinish) 0).2]
  rw [parse?_eq, trim_bracketed opens closes, float?_bracketed opens]
  obtain ⟨low, high, includesStart, includesFinish⟩ := bounds
  simp only [interval?, bounds?, isBraced, head?_bracketed, getLast?_bracketed, between_bracketed,
    parts, readStart, readFinish, openingOf, closingOf]
  cases includesStart <;> cases includesFinish <;> rfl

/-- An interval was read from two numbers between brackets. -/
theorem interval?_eq_some {letters : List Char} {item : Item}
    (read : interval? letters = some item) : ∃ bounds start finish, item = .interval bounds ∧
      Decimal.float? (Text.trim start) = some bounds.start ∧
      Decimal.float? (Text.trim finish) = some bounds.finish ∧
      letters = openingOf bounds :: ((start ++ ',' :: finish) ++ [closingOf bounds]) := by
  unfold interval? at read
  split at read
  next first last starts ends =>
    split at read
    next brackets =>
      obtain ⟨opens, closes⟩ := Bool.and_eq_true_iff.1 brackets
      obtain ⟨⟨low, high⟩, bounds, rfl⟩ := Option.map_eq_some_iff.1 read
      unfold bounds? at bounds
      split at bounds
      next start finish parts =>
        split at bounds
        next readStart readFinish =>
          cases bounds
          refine ⟨_, start, finish, rfl, readStart, readFinish, ?_⟩
          have joined := Payload.intercalate_splitTopLevel (between letters)
          rw [parts, Payload.intercalate_cons _ (by simp), List.intercalate_singleton] at joined
          have spelled : letters = first :: (between letters ++ [last]) := by
            refine bracketed starts ends ?_
            rintro rfl
            revert opens closes
            simp only [opensInterval, closesInterval, Bool.or_eq_true, beq_iff_eq]
            rintro (rfl | rfl) <;> decide
          rw [joined]
          refine spelled.trans ?_
          simp only [opensInterval, closesInterval, Bool.or_eq_true, beq_iff_eq] at opens closes
          rcases opens with rfl | rfl <;> rcases closes with rfl | rfl <;> rfl
        · cases bounds
      · cases bounds
    · cases read
  · cases read

/-! ## Reading back -/

/-- The text of an item is thinner than the source that it was read from, and reads back as the item
without the signs of zeros. -/
structure Faithful (source : List Char) (item : Item) : Prop where
  thins : Thins source item.letters
  reads : parse? item.letters = some item.unsigned

theorem parse?_of_float? {letters : List Char} {value : Float}
    (read : Decimal.float? letters = some value) : parse? letters = some (.number value) := by
  have filled := (Decimal.numeric_of_float? read).1
  rw [parse?_eq, trim_of_float? read, if_neg (by simpa using filled), read]

/-- Only blank texts are no items. -/
theorem plain_of_parse?_eq_none {letters : List Char} (none : parse? letters = none) :
    ∀ letter ∈ letters, IsPlain letter := by
  rw [parse?_eq] at none
  split at none
  next empty =>
    have blank := Text.trim_eq_nil_iff.1 (List.isEmpty_iff.1 empty)
    exact fun letter member => isPlain_of_isBlank (blank letter member)
  · split at none
    · cases none
    · split at none <;> cases none

/-- The texts of the items of a list, with commas between them, are cut into the same texts. -/
theorem faithful_pieces {source : List Char} (faithful : ∀ part ∈ splitTopLevel 0 source, ∀ item,
      parse? part = some item → Faithful part item) {items : List Item}
    (read : (splitTopLevel 0 source).filterMap parse? = items) :
    Thins source ([','].intercalate (items.map letters)) ∧
      (splitTopLevel 0 ([','].intercalate (items.map letters))).filterMap parse? =
        items.map unsigned := by
  have texts : items.map letters =
      (splitTopLevel 0 source).filterMap fun part => (parse? part).map letters := by
    rw [← read, List.map_filterMap]
  have kept : ∀ part ∈ splitTopLevel 0 source,
      Thins part (((parse? part).map letters).getD []) := by
    intro part member
    cases found : parse? part with
    | none => exact thins_of_plain (plain_of_parse?_eq_none found) (List.forall_mem_nil _)
    | some item => exact (faithful part member item found).thins
  have thins := thins_intercalate kept
  rw [Payload.intercalate_splitTopLevel, ← texts] at thins
  have separable := (Payload.separable_splitTopLevel source).filterMap kept
  rw [← texts] at separable
  refine ⟨thins, ?_⟩
  by_cases empty : items = []
  · have blank : parse? [] = none := by
      rw [parse?_eq]
      rfl
    rw [empty]
    exact List.filterMap_cons_none blank
  · rw [Payload.splitTopLevel_intercalate separable (by simpa using empty), List.filterMap_map]
    rw [← List.filterMap_eq_map]
    refine List.filterMap_congr fun item member => ?_
    rw [← read] at member
    obtain ⟨part, listed, found⟩ := List.mem_filterMap.1 member
    exact (faithful part listed item found).reads

theorem faithful_number {source : List Char} {value : Float}
    (read : Decimal.float? (Text.trim source) = some value) : Faithful source (.number value) where
  thins := thins_of_plain (plain_of_float?_trim read) (plain_of_float? (float?_numberText value))
  reads := parse?_of_float? (float?_numberText value)

theorem faithful_interval {source start finish : List Char} {bounds : ConceptLaws.Interval}
    (readStart : Decimal.float? (Text.trim start) = some bounds.start)
    (readFinish : Decimal.float? (Text.trim finish) = some bounds.finish)
    (spelled : Text.trim source =
      openingOf bounds :: ((start ++ ',' :: finish) ++ [closingOf bounds])) :
    Faithful source (.interval bounds) := by
  have shown := float?_numberText
  have thinsTo {letters : List Char} {value : Float}
      (read : Decimal.float? (Text.trim letters) = some value) :
      Thins letters (numberText value).toList :=
    thins_of_plain (plain_of_float?_trim read) (plain_of_float? (shown value))
  constructor
  · refine (thins_trim source).trans ?_
    rw [spelled, letters_interval]
    exact (thins_refl [openingOf bounds]).append
      (((thinsTo readStart).append ((thins_refl [',']).append (thinsTo readFinish))).append
        (thins_refl [closingOf bounds]))
  · have readBack {value : Float} : Decimal.float? (Text.trim (numberText value).toList) =
        some (unsignedZero value) := by
      rw [trim_of_float? (shown value), shown]
    rw [letters_interval]
    exact parse?_brackets (Interval.unsigned bounds) readBack readBack

theorem letters_of_isBraced {letters : List Char} (braced : isBraced letters = true) :
    letters = '\x7b' :: (between letters ++ ['\x7d']) := by
  simp only [isBraced, Bool.and_eq_true, beq_iff_eq] at braced
  exact bracketed braced.1 braced.2 (by decide)

theorem faithful_tuple {source : List Char} (braced : isBraced (Text.trim source) = true)
    (faithful : ∀ part ∈ splitTopLevel 0 (between (Text.trim source)), ∀ item,
      parse? part = some item → Faithful part item) :
    Faithful source (.tuple ((splitTopLevel 0 (between (Text.trim source))).filterMap parse?)) := by
  obtain ⟨thins, reads⟩ := faithful_pieces faithful rfl
  constructor
  · refine (thins_trim source).trans ?_
    rw [letters_tuple]
    conv => arg 1; rw [letters_of_isBraced braced]
    exact (thins_refl ['\x7b']).append (thins.append (thins_refl ['\x7d']))
  · rw [letters_tuple, parse?_braces, reads, unsigned, unsignedAll_eq_map]

/-- What is read from a text is told by its own text, up to the signs of zeros. -/
theorem faithful_of_parse? {source : List Char} {item : Item} (read : parse? source = some item) :
    Faithful source item := by
  -- The parts of a tuple are shorter than what they were cut from.
  induction size : source.length using Nat.strong_induction_on generalizing source item with
  | _ size ih =>
    subst size
    have shown := read
    rw [parse?_eq] at shown
    split at shown
    · cases shown
    next filled =>
      split at shown
      next value number =>
        cases shown
        exact faithful_number number
      next notNumber =>
        split at shown
        next braced =>
          cases shown
          refine faithful_tuple braced fun part member item found => ih part.length ?_ found rfl
          have length := congrArg List.length (letters_of_isBraced braced)
          have trimmed := length_trim_le source
          have piece := Payload.length_of_mem_splitTopLevel member
          simp only [List.length_cons, List.length_append, List.length_nil] at length
          omega
        next notBraced =>
          cases found : interval? (Text.trim source) with
          | some inner =>
            obtain ⟨bounds, start, finish, rfl, readStart, readFinish, spelled⟩ :=
              interval?_eq_some found
            rw [found, Option.getD_some] at shown
            cases shown
            exact faithful_interval readStart readFinish spelled
          | none =>
            rw [found, Option.getD_none] at shown
            cases shown
            have letters : (atom (String.ofList (Text.trim source))).letters = Text.trim source :=
              String.toList_ofList
            constructor
            · rw [letters]
              exact thins_trim source
            · rw [letters, parse?_trim, read, unsigned]

/-! ## Alike items -/

/-- Equality up to the signs of zeros in numbers. -/
inductive Alike : Item → Item → Prop
  | number {left right : Float} (same : SameNumber left right) :
      Alike (.number left) (.number right)
  | atom (content : String) : Alike (.atom content) (.atom content)
  | tuple {left right : List Item} (each : List.Forall₂ Alike left right) :
      Alike (.tuple left) (.tuple right)
  | interval {left right : ConceptLaws.Interval} (start : SameNumber left.start right.start)
      (finish : SameNumber left.finish right.finish)
      (includesStart : left.includesStart = right.includesStart)
      (includesFinish : left.includesFinish = right.includesFinish) :
      Alike (.interval left) (.interval right)

mutual

theorem alike_unsigned : (item : Item) → item.unsigned.Alike item
  | .number value => .number (sameNumber_unsignedZero value)
  | .atom content => .atom content
  | .tuple items => .tuple (alike_unsignedAll items)
  | .interval _ =>
    .interval (sameNumber_unsignedZero _) (sameNumber_unsignedZero _) rfl rfl

theorem alike_unsignedAll : (items : List Item) → List.Forall₂ Alike (unsignedAll items) items
  | [] => .nil
  | item :: rest => .cons (alike_unsigned item) (alike_unsignedAll rest)

end

mutual

theorem display_unsigned : (item : Item) → item.unsigned.display = item.display
  | .number value => numberText_unsignedZero value
  | .atom _ => rfl
  | .tuple items => by rw [unsigned, display, display, displayAll_unsignedAll items]
  | .interval bounds => by
    simp only [unsigned, display, Interval.display, Interval.unsigned, numberText_unsignedZero]

theorem displayAll_unsignedAll :
    (items : List Item) → displayAll (unsignedAll items) = displayAll items
  | [] => rfl
  | item :: rest => by
    rw [unsignedAll, displayAll, displayAll, display_unsigned item, displayAll_unsignedAll rest]

end

mutual

theorem alike_iff : (left right : Item) → (left.Alike right ↔ left.unsigned = right.unsigned)
  | .number _, .number _ =>
    ⟨fun | .number same => congrArg number (sameNumber_iff.1 same),
      fun same => .number (sameNumber_iff.2 (Item.number.inj same))⟩
  | .atom _, .atom _ =>
    ⟨fun | .atom _ => rfl, fun same => Item.atom.inj same ▸ .atom _⟩
  | .tuple left, .tuple right =>
    ⟨fun | .tuple each => congrArg tuple ((alikeAll_iff left right).1 each),
      fun same => .tuple ((alikeAll_iff left right).2 (Item.tuple.inj same))⟩
  | .interval left, .interval right => by
    simp only [unsigned, Interval.unsigned, interval.injEq, Interval.mk.injEq, ← sameNumber_iff]
    constructor
    · rintro (_ | _ | _ | ⟨start, finish, includesStart, includesFinish⟩)
      exact ⟨start, finish, includesStart, includesFinish⟩
    · rintro ⟨start, finish, includesStart, includesFinish⟩
      exact .interval start finish includesStart includesFinish
  | .number _, .atom _ | .number _, .tuple _ | .number _, .interval _
  | .atom _, .number _ | .atom _, .tuple _ | .atom _, .interval _
  | .tuple _, .number _ | .tuple _, .atom _ | .tuple _, .interval _
  | .interval _, .number _ | .interval _, .atom _ | .interval _, .tuple _ =>
    ⟨nofun, nofun⟩

theorem alikeAll_iff : (left right : List Item) →
    (List.Forall₂ Alike left right ↔ unsignedAll left = unsignedAll right)
  | [], [] => ⟨fun _ => rfl, fun _ => .nil⟩
  | [], _ :: _ | _ :: _, [] => ⟨nofun, nofun⟩
  | left :: leftRest, right :: rightRest => by
    rw [List.forall₂_cons, alike_iff left right, alikeAll_iff leftRest rightRest, unsignedAll,
      unsignedAll, List.cons.injEq]

end

end Item

namespace Payload

/-- A payload without the signs of zeros. -/
def unsigned (payload : Payload) : Payload := ⟨Item.unsignedAll payload.items⟩

/-- Item by item, equality up to the signs of zeros. -/
def Alike (left right : Payload) : Prop := List.Forall₂ Item.Alike left.items right.items

theorem display_unsigned (payload : Payload) : payload.unsigned.display = payload.display := by
  rw [display, unsigned, Item.displayAll_unsignedAll, display]

theorem alike_unsigned (payload : Payload) : payload.unsigned.Alike payload :=
  Item.alike_unsignedAll payload.items

theorem alike_iff (left right : Payload) : left.Alike right ↔ left.unsigned = right.unsigned := by
  rw [Alike, Item.alikeAll_iff, unsigned, unsigned, mk.injEq]

/-- The text of a payload that was read is the payload without the signs of zeros. -/
theorem parse_display (source : String) :
    parse (parse source).display = (parse source).unsigned := by
  rw [parse, display, Item.toList_join_displayAll, unsigned, Item.unsignedAll_eq_map]
  congr 1
  exact (Item.faithful_pieces
    (fun part _ item found => Item.faithful_of_parse? found) rfl).2

/-- Payloads that a text reads as. Besides reading a text there are two ways to make a payload, and
what they make, nothing or a single number, a text reads as too. -/
def Readable (payload : Payload) : Prop := ∃ source, parse source = payload

theorem parse_display_of_readable {payload : Payload} (readable : payload.Readable) :
    parse payload.display = payload.unsigned := by
  obtain ⟨source, rfl⟩ := readable
  exact parse_display source

theorem readable_empty : empty.Readable := by
  have blank : Item.parse? [] = none := by
    rw [Item.parse?_eq]
    rfl
  exact ⟨"", congrArg mk (List.filterMap_cons_none blank)⟩

/-- A number is told by its text, which keeps the sign of a zero. -/
theorem readable_number (value : Float) : Readable ⟨[.number value]⟩ := by
  have read := Decimal.float?_text value
  refine ⟨Decimal.text value, congrArg mk ?_⟩
  rw [splitTopLevel_of_solid (plain_nest (plain_of_float? read) 0).2,
    List.filterMap_cons_some (Item.parse?_of_float? read), List.filterMap_nil]

/-- Every text reads as a payload whose own text reads back as the same items, tuples and intervals
included; only the sign of a zero is not told. So printing what was read comes to rest at once. -/
theorem parse_display_alike (source : String) :
    (parse (parse source).display).Alike (parse source) ∧
      (parse (parse source).display).display = (parse source).display := by
  rw [parse_display]
  exact ⟨alike_unsigned _, display_unsigned _⟩

end Payload

end ConceptLaws
