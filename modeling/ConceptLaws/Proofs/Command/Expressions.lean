import ConceptLaws.Command.Expression
import ConceptLaws.Proofs.Text

/-! Expressions cut into blocks.
Whether an expression can be read depends only on its double braces and on what stands between them,
so the blanks around it do not matter. The blocks of one that can be read, written one after the
other, are the text that was read, up to blanks at its end. For one that cannot, the fault tells at
which byte the first block starts that is not closed or does not hold a reference. -/

namespace ConceptLaws.Command.Expression

/-! ## Double marks -/

/-- Where no two marks stand, the rest of the text is looked at. -/
theorem breakAt?_cons {mark first : Char} {rest : List Char}
    (apart : ¬[mark, mark] <+: first :: rest) : breakAt? mark (first :: rest) =
      (breakAt? mark rest).map fun (before, after) => (first :: before, after) := by
  cases rest with
  | nil => rfl
  | cons second rest =>
    rw [breakAt?, if_neg]
    rintro same
    simp only [Bool.and_eq_true, decide_eq_true_eq] at same
    rw [same.1, same.2] at apart
    exact apart (List.prefix_append [mark, mark] rest)

theorem breakAt?_cons_of_ne {mark first : Char} (different : first ≠ mark) (rest : List Char) :
    breakAt? mark (first :: rest) =
      (breakAt? mark rest).map fun (before, after) => (first :: before, after) :=
  breakAt?_cons fun marks => different (List.cons_prefix_cons.1 marks).1.symm

/-- Without two marks in a row there is no place to break at. -/
theorem breakAt?_eq_none_iff {mark : Char} {letters : List Char} :
    breakAt? mark letters = none ↔ ¬[mark, mark] <:+: letters := by
  fun_induction breakAt? mark letters with
  | case1 first second rest same =>
    simp only [Bool.and_eq_true, decide_eq_true_eq] at same
    rw [same.1, same.2]
    exact iff_of_false (by simp) (not_not.2 (List.prefix_append [mark, mark] rest).isInfix)
  | case2 first second rest different ih =>
    have apart : ¬[mark, mark] <+: first :: second :: rest := by
      simp only [List.cons_prefix_cons, List.nil_prefix, and_true]
      rintro ⟨rfl, rfl⟩
      simp at different
    rw [Option.map_eq_none_iff, ih, List.infix_cons_iff (a := first), or_iff_right apart]
  | case3 letters short =>
    refine iff_of_true rfl fun within => ?_
    rcases letters with _ | ⟨first, _ | ⟨second, rest⟩⟩
    · simpa using within.length_le
    · simpa using within.length_le
    · exact short first second rest rfl

/-- A text breaks at the first two marks in a row. -/
theorem breakAt?_eq_some_iff {mark : Char} {letters before after : List Char} :
    breakAt? mark letters = some (before, after) ↔
      letters = before ++ mark :: mark :: after ∧ ¬[mark, mark] <:+: before ++ [mark] := by
  induction before generalizing letters with
  | nil =>
    have single : ¬[mark, mark] <:+: [mark] := fun within => by simpa using within.length_le
    constructor
    · intro found
      by_cases marks : [mark, mark] <+: letters
      · obtain ⟨rest, rfl⟩ := marks
        simp [breakAt?] at found
        exact ⟨by rw [found]; rfl, single⟩
      · cases letters with
        | nil => cases found
        | cons first rest => simp [breakAt?_cons marks] at found
    · rintro ⟨rfl, -⟩
      simp [breakAt?]
  | cons first before ih =>
    constructor
    · intro found
      by_cases marks : [mark, mark] <+: letters
      · obtain ⟨rest, rfl⟩ := marks
        simp [breakAt?] at found
      · cases letters with
        | nil => cases found
        | cons start rest =>
          rw [breakAt?_cons marks] at found
          obtain ⟨⟨inner, last⟩, foundRest, same⟩ := Option.map_eq_some_iff.1 found
          obtain ⟨heads, rfl⟩ := Prod.mk.inj same
          obtain ⟨rfl, rfl⟩ := List.cons.inj heads
          obtain ⟨rfl, apart⟩ := ih.1 foundRest
          refine ⟨rfl, fun within => ?_⟩
          rcases List.infix_cons_iff.1 within with early | later
          · exact marks (early.trans ⟨mark :: last, by simp⟩)
          · exact apart later
    · rintro ⟨rfl, apart⟩
      rw [List.cons_append, List.infix_cons_iff, not_or] at apart
      have marks : ¬[mark, mark] <+: first :: (before ++ mark :: mark :: after) := by
        intro early
        refine apart.1 (List.prefix_of_prefix_length_le early ⟨mark :: after, by simp⟩ ?_)
        simp
      rw [List.cons_append, breakAt?_cons marks, ih.2 ⟨rfl, apart.2⟩]
      rfl

/-- Letters without the mark behind a text are left over. -/
theorem breakAt?_append {mark : Char} {letters : List Char} (others : List Char)
    (apart : mark ∉ others) : breakAt? mark (letters ++ others) =
      (breakAt? mark letters).map fun (before, after) => (before, after ++ others) := by
  fun_induction breakAt? mark letters with
  | case1 first second rest same => simp [breakAt?, same]
  | case2 first second rest different ih =>
    rw [List.cons_append, List.cons_append, breakAt?, if_neg different, ← List.cons_append, ih,
      Option.map_map, Option.map_map]
    rfl
  | case3 letters short =>
    have missing : breakAt? mark others = none :=
      breakAt?_eq_none_iff.2 fun marks => apart (marks.subset List.mem_cons_self)
    match letters, others with
    | [], _ => exact missing
    | [_], [] => rfl
    | [single], first :: rest =>
      have different : first ≠ mark := fun same => apart (same ▸ List.mem_cons_self)
      rw [List.singleton_append, breakAt?, if_neg (by simp [different]), missing]
      rfl
    | _ :: _ :: _, _ => exact (short _ _ _ rfl).elim

/-! ## Blocks in a row -/

/-- The blocks of a text are what stands before the first one, that one, and those after it. -/
theorem blocksFrom_eq (offset : Nat) (letters : List Char) : blocksFrom offset letters =
    match breakAt? '\x7b' letters with
    | none => .ok (if letters.all Text.isBlank then [] else [.text (String.ofList letters)])
    | some (before, inner) =>
      match breakAt? '\x7d' inner with
      | none => .error (.unterminated (offset + byteLength before))
      | some (content, after) =>
        match Reference.parse content with
        | .error fault => .error (.reference (offset + byteLength before) fault)
        | .ok reference =>
          (blocksFrom (offset + byteLength before + 2 + byteLength content + 2) after).map
            fun others => textBlock before ++ .reference reference :: others := by
  rw [blocksFrom]
  split
  · rename_i unopened
    rw [unopened]
  rename_i before inner opened
  conv => rhs; rw [opened]
  dsimp only
  split
  · rename_i unclosed
    rw [unclosed]
  rename_i content after closed
  conv => rhs; rw [closed]
  dsimp only
  cases Reference.parse content with
  | error fault => rfl
  | ok reference =>
    dsimp only
    cases blocksFrom (offset + byteLength before + 2 + byteLength content + 2) after with
    | error fault => rfl
    | ok others => rfl

/-! ## Readable texts -/

/-- Double braces are closed, and what stands between them is a reference. -/
inductive Readable : List Char → Prop where
  | plain {letters : List Char} (unopened : breakAt? '\x7b' letters = none) : Readable letters
  | block {letters before inner content after : List Char} {reference : Reference}
      (opened : breakAt? '\x7b' letters = some (before, inner))
      (closed : breakAt? '\x7d' inner = some (content, after))
      (read : Reference.parse content = .ok reference) (others : Readable after) : Readable letters

theorem exists_blocksFrom {letters : List Char} (readable : Readable letters) (offset : Nat) :
    ∃ blocks, blocksFrom offset letters = .ok blocks := by
  induction readable generalizing offset with
  | plain unopened =>
    rw [blocksFrom_eq, unopened]
    exact ⟨_, rfl⟩
  | block opened closed read others ih =>
    obtain ⟨blocks, found⟩ := ih _
    rw [blocksFrom_eq, opened]
    dsimp only
    rw [closed]
    dsimp only
    rw [read]
    dsimp only
    rw [found]
    exact ⟨_, rfl⟩

theorem readable_of_blocksFrom {offset : Nat} {letters : List Char} {blocks : List Block}
    (read : blocksFrom offset letters = .ok blocks) : Readable letters := by
  fun_induction blocksFrom offset letters generalizing blocks with
  | case1 offset letters opened => exact .plain opened
  | case2 => cases read
  | case3 => cases read
  | case4 => cases read
  | case5 =>
    rename_i opened _ _ _ closed _ _ _ here _ found ih
    exact .block opened closed here (ih found)

theorem Readable.of_cons {first : Char} {rest : List Char} (readable : Readable (first :: rest))
    (plain : first ≠ '\x7b') : Readable rest := by
  cases readable with
  | plain unopened =>
    rw [breakAt?_cons_of_ne plain, Option.map_eq_none_iff] at unopened
    exact .plain unopened
  | block opened closed read others =>
    rw [breakAt?_cons_of_ne plain] at opened
    obtain ⟨⟨before, inner⟩, opened', same⟩ := Option.map_eq_some_iff.1 opened
    obtain ⟨-, rfl⟩ := Prod.mk.inj same
    exact .block opened' closed read others

theorem Readable.of_append {letters others : List Char} (readable : Readable (letters ++ others))
    (unopened : '\x7b' ∉ others) (unclosed : '\x7d' ∉ others) : Readable letters := by
  generalize whole : letters ++ others = text at readable
  induction readable generalizing letters with
  | plain none =>
    rw [← whole, breakAt?_append others unopened, Option.map_eq_none_iff] at none
    exact .plain none
  | block opened closed read _ ih =>
    rw [← whole, breakAt?_append others unopened] at opened
    obtain ⟨⟨before, inner⟩, opened', same⟩ := Option.map_eq_some_iff.1 opened
    obtain ⟨-, rfl⟩ := Prod.mk.inj same
    rw [breakAt?_append others unclosed] at closed
    obtain ⟨⟨content, after⟩, closed', same⟩ := Option.map_eq_some_iff.1 closed
    obtain ⟨rfl, rfl⟩ := Prod.mk.inj same
    exact .block opened' closed' read (ih rfl)

theorem Readable.trim {letters : List Char} (readable : Readable letters) :
    Readable (Text.trim letters) := by
  obtain ⟨before, after, whole, blankBefore, blankAfter⟩ := Text.exists_trim letters
  have noBrace {blanks : List Char} (blank : ∀ letter ∈ blanks, Text.isBlank letter = true)
      {brace : Char} (solid : Text.isBlank brace = false) : brace ∉ blanks := fun member => by
    rw [blank brace member] at solid
    cases solid
  rw [whole] at readable
  generalize Text.trim letters = core at readable ⊢
  have rest : Readable (core ++ after) := by
    clear whole
    induction before with
    | nil => exact readable
    | cons first before ih =>
      obtain ⟨blank, later⟩ := List.forall_mem_cons.1 blankBefore
      refine ih later (readable.of_cons fun same => ?_)
      rw [same] at blank
      cases blank
  exact rest.of_append (noBrace blankAfter rfl) (noBrace blankAfter rfl)

/-! ## Empty expressions -/

theorem blocksFrom_eq_nil_iff {offset : Nat} {letters : List Char} {blocks : List Block}
    (read : blocksFrom offset letters = .ok blocks) :
    blocks = [] ↔ ∀ letter ∈ letters, Text.isBlank letter = true := by
  rw [blocksFrom_eq] at read
  split at read
  · obtain rfl := Except.ok.inj read
    rw [← List.all_eq_true]
    split <;> simp_all
  rename_i before inner opened
  have brace : '\x7b' ∈ letters := (breakAt?_eq_some_iff.1 opened).1 ▸
    List.mem_append_right before List.mem_cons_self
  have solid : ¬∀ letter ∈ letters, Text.isBlank letter = true := fun blank =>
    absurd (blank _ brace) (by decide)
  split at read
  · cases read
  split at read
  · cases read
  generalize blocksFrom _ _ = later at read
  cases later with
  | error fault => cases read
  | ok others =>
    obtain rfl := Except.ok.inj read
    exact iff_of_false (by simp) solid

/-- Without the blanks around it, an expression can still be read, and is as empty as it was. -/
theorem parse_trim {letters : List Char} {given : Expression} (read : parse letters = .ok given) :
    ∃ expression, parse (Text.trim letters) = .ok expression ∧
      expression.isEmpty = given.isEmpty := by
  unfold parse at read ⊢
  split at read
  · cases read
  rename_i blocks found
  obtain rfl := Except.ok.inj read
  obtain ⟨trimmed, foundTrimmed⟩ := exists_blocksFrom (readable_of_blocksFrom found).trim 0
  refine ⟨⟨trimmed⟩, by rw [foundTrimmed], ?_⟩
  rw [Bool.eq_iff_iff, isEmpty, isEmpty, List.isEmpty_iff, List.isEmpty_iff,
    blocksFrom_eq_nil_iff found, blocksFrom_eq_nil_iff foundTrimmed, ← Text.trim_eq_nil_iff,
    Text.trim_trim, Text.trim_eq_nil_iff]

/-! ## Places in bytes -/

theorem byteLength_append (letters others : List Char) :
    byteLength (letters ++ others) = byteLength letters + byteLength others := by
  induction letters with
  | nil => exact (Nat.zero_add _).symm
  | cons first rest ih => exact (congrArg _ ih).trans (Nat.add_assoc ..).symm

theorem byteLength_eq (letters : List Char) :
    byteLength letters = (String.ofList letters).utf8ByteSize := by
  induction letters with
  | nil => rfl
  | cons first rest ih =>
    rw [String.ofList_cons, String.utf8ByteSize_append, String.utf8ByteSize_singleton, ← ih]
    rfl

/-! ## Passages -/

/-- Text up to a block, and what stands between the braces of the block. -/
structure Passage where
  before : List Char
  content : List Char
  reference : Reference

namespace Passage

variable {passage : Passage}

def letters (passage : Passage) : List Char :=
  passage.before ++ '\x7b' :: '\x7b' :: (passage.content ++ ['\x7d', '\x7d'])

def blocks (passage : Passage) : List Block :=
  textBlock passage.before ++ [.reference passage.reference]

/-- The braces are the first double ones, and the reference is what stands between them. -/
structure Reads (passage : Passage) : Prop where
  opened : ¬['\x7b', '\x7b'] <:+: passage.before ++ ['\x7b']
  closed : ¬['\x7d', '\x7d'] <:+: passage.content ++ ['\x7d']
  read : Reference.parse passage.content = .ok passage.reference

theorem letters_append (passage : Passage) (after : List Char) : passage.letters ++ after =
    passage.before ++ '\x7b' :: '\x7b' :: (passage.content ++ '\x7d' :: '\x7d' :: after) := by
  simp [letters]

theorem byteLength_letters (passage : Passage) : byteLength passage.letters =
    byteLength passage.before + 2 + byteLength passage.content + 2 := by
  have open_ (letters : List Char) : byteLength ('\x7b' :: '\x7b' :: letters) =
      1 + (1 + byteLength letters) := rfl
  have close : byteLength ['\x7d', '\x7d'] = 2 := rfl
  rw [letters, byteLength_append, open_, byteLength_append, close]
  omega

/-- A passage that reads gives its blocks. -/
theorem Reads.blocksFrom_append (reads : passage.Reads) (offset : Nat) (after : List Char) :
    blocksFrom offset (passage.letters ++ after) =
      (blocksFrom (offset + byteLength passage.letters) after).map (passage.blocks ++ ·) := by
  rw [blocksFrom_eq, breakAt?_eq_some_iff.2 ⟨passage.letters_append after, reads.opened⟩]
  dsimp only
  rw [breakAt?_eq_some_iff.2 ⟨rfl, reads.closed⟩]
  dsimp only
  rw [reads.read, byteLength_letters]
  simp only [blocks, ← Nat.add_assoc, List.append_assoc, List.singleton_append]

theorem blocksFrom_flatMap {passages : List Passage} (reads : ∀ passage ∈ passages, passage.Reads)
    (offset : Nat) (rest : List Char) : blocksFrom offset (passages.flatMap letters ++ rest) =
      (blocksFrom (offset + byteLength (passages.flatMap letters)) rest).map
        (passages.flatMap blocks ++ ·) := by
  induction passages generalizing offset with
  | nil => exact (congrFun Except.map_id _).symm
  | cons first others ih =>
    obtain ⟨here, later⟩ := List.forall_mem_cons.1 reads
    rw [List.flatMap_cons, List.append_assoc, here.blocksFrom_append, ih later, List.flatMap_cons,
      byteLength_append, Nat.add_assoc]
    generalize blocksFrom _ rest = outcome
    cases outcome with
    | error fault => rfl
    | ok blocks => exact congrArg Except.ok (List.append_assoc ..).symm

/-- A text is passages that read, and a rest without a block or with a first block that does not. -/
theorem exists_passages (source : List Char) : ∃ (passages : List Passage) (rest : List Char),
    source = passages.flatMap letters ++ rest ∧ (∀ passage ∈ passages, passage.Reads) ∧
      (breakAt? '\x7b' rest = none ∨ ∃ before inner, breakAt? '\x7b' rest = some (before, inner) ∧
        (breakAt? '\x7d' inner = none ∨ ∃ content after fault,
          breakAt? '\x7d' inner = some (content, after) ∧
            Reference.parse content = .error fault)) := by
  cases opened : breakAt? '\x7b' source with
  | none => exact ⟨[], source, rfl, by simp, .inl opened⟩
  | some pair =>
    obtain ⟨before, inner⟩ := pair
    cases closed : breakAt? '\x7d' inner with
    | none => exact ⟨[], source, rfl, by simp, .inr ⟨before, inner, opened, .inl closed⟩⟩
    | some pair =>
      obtain ⟨content, after⟩ := pair
      cases read : Reference.parse content with
      | error fault =>
        exact ⟨[], source, rfl, by simp,
          .inr ⟨before, inner, opened, .inr ⟨content, after, fault, closed, read⟩⟩⟩
      | ok reference =>
        have shorter : after.length < source.length := by
          have := length_breakAt opened
          have := length_breakAt closed
          omega
        obtain ⟨passages, rest, same, reads, stops⟩ := exists_passages after
        obtain ⟨whole, first⟩ := breakAt?_eq_some_iff.1 opened
        obtain ⟨wholeInner, firstClosing⟩ := breakAt?_eq_some_iff.1 closed
        refine ⟨⟨before, content, reference⟩ :: passages, rest, ?_,
          List.forall_mem_cons.2 ⟨⟨first, firstClosing, read⟩, reads⟩, stops⟩
        rw [List.flatMap_cons, List.append_assoc, ← same, letters_append, whole, wholeInner]
termination_by source.length

end Passage

/-! ## What a text is cut into -/

/-- Blocks as they are written: texts as they are, and references as texts between double braces
that read as them. -/
inductive Written : List Block → List Char → Prop where
  | nil : Written [] []
  | text {content : List Char} {blocks : List Block} {letters : List Char}
      (others : Written blocks letters) :
      Written (.text (String.ofList content) :: blocks) (content ++ letters)
  | reference {content : List Char} {reference : Reference} {blocks : List Block}
      {letters : List Char} (closed : ¬['\x7d', '\x7d'] <:+: content ++ ['\x7d'])
      (read : Reference.parse content = .ok reference) (others : Written blocks letters) :
      Written (.reference reference :: blocks)
        ('\x7b' :: '\x7b' :: (content ++ '\x7d' :: '\x7d' :: letters))

theorem Written.passages {passages : List Passage} (reads : ∀ passage ∈ passages, passage.Reads)
    {blocks : List Block} {letters : List Char} (others : Written blocks letters) :
    Written (passages.flatMap Passage.blocks ++ blocks)
      (passages.flatMap Passage.letters ++ letters) := by
  induction passages with
  | nil => exact others
  | cons first rest ih =>
    obtain ⟨here, later⟩ := List.forall_mem_cons.1 reads
    have block := Written.reference here.closed here.read (ih later)
    rw [List.flatMap_cons, List.append_assoc, List.flatMap_cons, List.append_assoc,
      Passage.letters_append, Passage.blocks, List.append_assoc]
    unfold textBlock
    split
    · rename_i empty
      rw [List.isEmpty_iff.1 empty]
      exact block
    · exact .text block

/-- The first block of a text that is not closed or does not hold a reference, at the byte at which
it starts. The passages before it read. -/
inductive FirstFault (source : List Char) : ExpressionFault → Prop where
  | unterminated {passages : List Passage} {before inner : List Char}
      (reads : ∀ passage ∈ passages, passage.Reads)
      (whole : source = passages.flatMap Passage.letters ++ before ++ '\x7b' :: '\x7b' :: inner)
      (opened : ¬['\x7b', '\x7b'] <:+: before ++ ['\x7b'])
      (unclosed : ¬['\x7d', '\x7d'] <:+: inner) :
      FirstFault source (.unterminated
        (String.ofList (passages.flatMap Passage.letters ++ before)).utf8ByteSize)
  | reference {passages : List Passage} {before content after : List Char} {fault : ReferenceFault}
      (reads : ∀ passage ∈ passages, passage.Reads)
      (whole : source = passages.flatMap Passage.letters ++ before ++
        '\x7b' :: '\x7b' :: (content ++ '\x7d' :: '\x7d' :: after))
      (opened : ¬['\x7b', '\x7b'] <:+: before ++ ['\x7b'])
      (closed : ¬['\x7d', '\x7d'] <:+: content ++ ['\x7d'])
      (refused : Reference.parse content = .error fault) :
      FirstFault source (.reference
        (String.ofList (passages.flatMap Passage.letters ++ before)).utf8ByteSize fault)

theorem FirstFault.blocksFrom_eq_error {source : List Char} {fault : ExpressionFault}
    (first : FirstFault source fault) : blocksFrom 0 source = .error fault := by
  cases first with
  | unterminated reads whole opened unclosed =>
    rw [whole, List.append_assoc, Passage.blocksFrom_flatMap reads, blocksFrom_eq,
      breakAt?_eq_some_iff.2 ⟨rfl, opened⟩]
    dsimp only
    rw [breakAt?_eq_none_iff.2 unclosed, Nat.zero_add, ← byteLength_append, byteLength_eq]
    rfl
  | reference reads whole opened closed refused =>
    rw [whole, List.append_assoc, Passage.blocksFrom_flatMap reads, blocksFrom_eq,
      breakAt?_eq_some_iff.2 ⟨rfl, opened⟩]
    dsimp only
    rw [breakAt?_eq_some_iff.2 ⟨rfl, closed⟩]
    dsimp only
    rw [refused, Nat.zero_add, ← byteLength_append, byteLength_eq]
    rfl

/-- A text that cannot be read has a first block that cannot. -/
theorem exists_blocks_or_fault (source : List Char) :
    (∃ (passages : List Passage) (rest : List Char),
      source = passages.flatMap Passage.letters ++ rest ∧ (∀ passage ∈ passages, passage.Reads) ∧
        ¬['\x7b', '\x7b'] <:+: rest ∧ blocksFrom 0 source = .ok (passages.flatMap Passage.blocks ++
          if rest.all Text.isBlank then [] else [.text (String.ofList rest)])) ∨
      ∃ fault, FirstFault source fault := by
  obtain ⟨passages, rest, whole, reads, unopened | ⟨before, inner, opened, stops⟩⟩ :=
    Passage.exists_passages source
  · refine .inl ⟨passages, rest, whole, reads, breakAt?_eq_none_iff.1 unopened, ?_⟩
    rw [whole, Passage.blocksFrom_flatMap reads, blocksFrom_eq, unopened]
    rfl
  · obtain ⟨same, first⟩ := breakAt?_eq_some_iff.1 opened
    rw [same, ← List.append_assoc] at whole
    rcases stops with unclosed | ⟨content, after, fault, closed, refused⟩
    · exact .inr ⟨_, .unterminated reads whole first (breakAt?_eq_none_iff.1 unclosed)⟩
    · obtain ⟨sameInner, firstClosing⟩ := breakAt?_eq_some_iff.1 closed
      rw [sameInner] at whole
      exact .inr ⟨_, .reference reads whole first firstClosing refused⟩

theorem parse_ok_iff_written {source : List Char} {expression : Expression} :
    parse source = .ok expression ↔ blocksFrom 0 source = .ok expression.blocks := by
  unfold parse
  cases blocksFrom 0 source with
  | error fault => simp
  | ok blocks =>
    simp only [Except.ok.injEq]
    constructor
    · rintro rfl
      rfl
    · rintro rfl
      rfl

theorem parse_error_iff_fault {source : List Char} {fault : ExpressionFault} :
    parse source = .error fault ↔ blocksFrom 0 source = .error fault := by
  unfold parse
  cases blocksFrom 0 source with
  | error other => simp
  | ok blocks => simp

/-- No text block of passages and the rest of a text holds double braces. -/
theorem not_doubled_of_text {passages : List Passage} {rest : List Char}
    (reads : ∀ passage ∈ passages, passage.Reads) (unopened : ¬['\x7b', '\x7b'] <:+: rest)
    {content : String} (listed : .text content ∈ passages.flatMap Passage.blocks ++
      if rest.all Text.isBlank then [] else [.text (String.ofList rest)]) :
    ¬['\x7b', '\x7b'] <:+: content.toList := by
  rcases List.mem_append.1 listed with block | last
  · obtain ⟨passage, member, block⟩ := List.mem_flatMap.1 block
    have text : .text content ∈ textBlock passage.before := by
      simpa [Passage.blocks] using block
    unfold textBlock at text
    split at text
    · cases text
    · obtain rfl := Block.text.inj (List.mem_singleton.1 text)
      rw [String.toList_ofList]
      intro doubled
      exact (reads passage member).opened (doubled.trans (List.prefix_append ..).isInfix)
  · split at last
    · cases last
    · obtain rfl := Block.text.inj (List.mem_singleton.1 last)
      rwa [String.toList_ofList]

/-- The blocks of an expression, written one after the other, are the text that was read, but for
blanks at its end. No text block holds double braces, and there is no block exactly if the text is
blank. A text is refused exactly if it has a block that is not closed or does not hold a reference,
and the fault is about the first such block and tells the byte at which it starts. -/
theorem parse_keeps_source (source : List Char) :
    (∀ expression, parse source = .ok expression →
      (∃ written rest, Written expression.blocks written ∧ source = written ++ rest ∧
        ∀ letter ∈ rest, Text.isBlank letter = true) ∧
      (∀ content, .text content ∈ expression.blocks →
        ¬['\x7b', '\x7b'] <:+: content.toList) ∧
      (expression.blocks = [] ↔ ∀ letter ∈ source, Text.isBlank letter = true)) ∧
    ∀ fault, parse source = .error fault ↔ FirstFault source fault := by
  rcases exists_blocks_or_fault source with ⟨passages, rest, whole, reads, unopened, found⟩ |
    ⟨fault, first⟩
  · refine ⟨fun expression read => ?_, fun fault => ?_⟩
    · have blocks := Except.ok.inj (found.symm.trans (parse_ok_iff_written.1 read))
      refine ⟨?_, fun content listed => not_doubled_of_text reads unopened (blocks ▸ listed),
        blocksFrom_eq_nil_iff (parse_ok_iff_written.1 read)⟩
      rw [← blocks]
      split
      · rename_i blank
        refine ⟨_, rest, Written.passages reads .nil, ?_, List.all_eq_true.1 blank⟩
        rw [List.append_nil, whole]
      · have last : Written [.text (String.ofList rest)] (rest ++ []) := .text .nil
        refine ⟨_, [], Written.passages reads last, ?_, by simp⟩
        rw [List.append_nil, List.append_nil, whole]
    · rw [parse_error_iff_fault]
      refine ⟨fun failed => ?_, FirstFault.blocksFrom_eq_error⟩
      rw [found] at failed
      cases failed
  · have failed := first.blocksFrom_eq_error
    refine ⟨fun expression read => ?_, fun other => ?_⟩
    · rw [parse_ok_iff_written, failed] at read
      cases read
    · rw [parse_error_iff_fault, failed]
      constructor
      · intro same
        exact Except.error.inj same ▸ first
      · intro firstToo
        exact failed.symm.trans firstToo.blocksFrom_eq_error

/-- A blank before a block is kept, and the blanks at the end are left out. -/
theorem parse_keeps_source_blanks :
    parse " \x7b\x7bA.x\x7d\x7d + 'é'  \x7b\x7bB\x7d\x7d  ".toList = .ok
      ⟨[.text " ", .reference ⟨.nodes [⟨.head, none⟩], ["x"], false, none⟩, .text " + 'é'  ",
        .reference ⟨.nodes [⟨.reference, none⟩], [], false, none⟩]⟩ ∧
    ∃ written rest, Written [.text " ", .reference ⟨.nodes [⟨.head, none⟩], ["x"], false, none⟩,
        .text " + 'é'  ", .reference ⟨.nodes [⟨.reference, none⟩], [], false, none⟩] written ∧
      " \x7b\x7bA.x\x7d\x7d + 'é'  \x7b\x7bB\x7d\x7d  ".toList = written ++ rest ∧
      ∀ letter ∈ rest, Text.isBlank letter = true := by
  have read : parse " \x7b\x7bA.x\x7d\x7d + 'é'  \x7b\x7bB\x7d\x7d  ".toList = .ok
      ⟨[.text " ", .reference ⟨.nodes [⟨.head, none⟩], ["x"], false, none⟩, .text " + 'é'  ",
        .reference ⟨.nodes [⟨.reference, none⟩], [], false, none⟩]⟩ := by decide +kernel
  exact ⟨read, ((parse_keeps_source _).1 _ read).1⟩

/-- The letter before the braces takes two bytes. -/
example : parse "é\x7b\x7bA.x\x7d\x7d\x7b\x7bB".toList = .error (.unterminated 9) := by
  decide +kernel

end ConceptLaws.Command.Expression
