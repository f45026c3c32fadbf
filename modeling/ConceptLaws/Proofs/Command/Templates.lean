import ConceptLaws.Command.Template
import ConceptLaws.Proofs.Command.Expressions
import ConceptLaws.Proofs.Command.Spelling

/-! Commands put together from a target, an action and an expression.
The blanks around an expression do not matter. A reference has blanks between the brackets of its
filters only, and up to there it is none. So a command with such a target is refused, and every
other one is read as it was put together. -/

namespace ConceptLaws.Command

open Text (isBlank)

/-! ## Blanks in references -/

/-- From inside or outside of brackets on, all blanks are inside and all brackets are closed. -/
def guarded : Bool → List Char → Bool
  | inside, [] => !inside
  | true, letter :: rest => guarded (letter != ']') rest
  | false, letter :: rest => !isBlank letter && guarded (letter == '[') rest

/-- Once all brackets are closed, it goes on from outside. -/
theorem guarded_append {inside : Bool} {letters : List Char} (done : guarded inside letters = true)
    (rest : List Char) : guarded inside (letters ++ rest) = guarded false rest := by
  induction letters generalizing inside with
  | nil =>
    cases inside with
    | true => cases done
    | false => rfl
  | cons letter letters ih =>
    cases inside with
    | true => exact ih done
    | false =>
      rw [guarded, Bool.and_eq_true] at done
      rw [List.cons_append, guarded, done.1, Bool.true_and]
      exact ih done.2

theorem guarded_of_plain {letters : List Char}
    (plain : ∀ letter ∈ letters, isBlank letter = false ∧ letter ≠ '[') :
    guarded false letters = true := by
  induction letters with
  | nil => rfl
  | cons letter rest ih =>
    obtain ⟨⟨solid, bracketless⟩, later⟩ := List.forall_mem_cons.1 plain
    rw [guarded, solid, beq_false_of_ne bracketless, ih later]
    rfl

theorem guarded_name {letters : List Char}
    (named : ∀ letter ∈ letters, Text.isWordChar letter = true) : guarded false letters = true := by
  refine guarded_of_plain fun letter member => ?_
  refine ⟨Text.isBlank_of_isWordChar (named letter member), fun same => ?_⟩
  have word := named letter member
  rw [same] at word
  revert word
  decide

theorem guarded_content {content : List Char} (closed : ']' ∉ content) (rest : List Char) :
    guarded true (content ++ ']' :: rest) = guarded false rest := by
  induction content with
  | nil => rfl
  | cons letter content ih =>
    obtain ⟨different, later⟩ := not_or.1 (mt List.mem_cons.2 closed)
    rw [List.cons_append, guarded, bne_iff_ne.2 (Ne.symm different)]
    exact ih later

theorem guarded_step {step : StepSpelling} (well : step.WellFormed) :
    guarded false step.letters = true := by
  obtain ⟨selector, filter⟩ := step
  have letter : guarded false [selector.letter] = true := by cases selector <;> decide
  unfold StepSpelling.letters
  rw [← List.singleton_append, guarded_append letter]
  cases filter with
  | none => rfl
  | some filter =>
    have closed : ']' ∉ (if filter.negated then ['!'] else []) ++ filter.content := by
      rw [List.mem_append, not_or]
      refine ⟨?_, (well filter rfl).closed⟩
      cases filter.negated <;> decide
    have inner := guarded_content closed []
    rw [List.append_assoc] at inner
    exact inner

theorem guarded_intercalate {parts : List (List Char)}
    (each : ∀ part ∈ parts, guarded false part = true) :
    guarded false (['.'].intercalate parts) = true := by
  have dotted {parts : List (List Char)} (each : ∀ part ∈ parts, guarded false part = true) :
      guarded false (dots parts) = true := by
    induction parts with
    | nil => rfl
    | cons part rest ih =>
      obtain ⟨here, later⟩ := List.forall_mem_cons.1 each
      exact (guarded_append here _).trans (ih later)
  cases parts with
  | nil => rfl
  | cons first rest =>
    obtain ⟨here, later⟩ := List.forall_mem_cons.1 each
    rw [intercalate_dot, guarded_append here, dotted later]

theorem guarded_letters {spelling : Spelling} (well : spelling.WellFormed) :
    guarded false spelling.letters = true := by
  obtain ⟨base, key, recursive, bind⟩ := spelling
  have segments : ∀ part ∈ base.parts ++ key, guarded false part = true := by
    cases base with
    | named variableName =>
      obtain ⟨named, names⟩ := well.segments
      refine List.forall_mem_cons.2 ⟨?_, fun name member => guarded_name (names name member).2⟩
      have mark : guarded false ['$'] = true := by decide
      exact (guarded_append mark variableName).trans (guarded_name named.2)
    | nodes steps =>
      obtain ⟨wells, names, -⟩ := well.segments
      refine List.forall_mem_append.2 ⟨fun part member => ?_, fun name member =>
        guarded_name (names name member).1.2⟩
      obtain ⟨step, listed, rfl⟩ := List.mem_map.1 member
      exact guarded_step (wells step listed)
  have flags : guarded false (Spelling.flags ⟨base, key, recursive, bind⟩) = true := by
    have recursion : guarded false (if recursive then [':', 'R'] else []) = true := by
      cases recursive <;> decide
    unfold Spelling.flags
    rw [guarded_append recursion]
    cases bind with
    | none => rfl
    | some name =>
      have mark : guarded false ['>'] = true := by decide
      exact (guarded_append mark name).trans (guarded_name (well.bind name rfl).2)
  unfold Spelling.letters
  rw [guarded_append (guarded_intercalate segments), flags]

theorem guarded_of_parse {letters : List Char} {reference : Reference}
    (read : Reference.parse letters = .ok reference) (trimmed : Text.trim letters = letters) :
    guarded false letters = true := by
  obtain ⟨spelling, well, same, -⟩ := Reference.parse_eq_ok_iff.1 read
  exact trimmed ▸ same ▸ guarded_letters well

/-- What stands before a blank in a reference is not a reference. -/
theorem parse_before_blank {before after : List Char} {blank : Char} {reference : Reference}
    (read : Reference.parse (before ++ blank :: after) = .ok reference)
    (trimmed : Text.trim (before ++ blank :: after) = before ++ blank :: after)
    (solid : ∀ letter ∈ before, isBlank letter = false) (gap : isBlank blank = true) :
    ∃ fault, Reference.parse before = .error fault := by
  cases readBefore : Reference.parse before with
  | error fault => exact ⟨fault, rfl⟩
  | ok other =>
    have trimmedBefore : Text.trim before = before := Text.trim_eq_self
      (fun letter first => solid letter (List.mem_of_head? first))
      fun letter last => solid letter (List.mem_of_getLast? last)
    have whole := guarded_of_parse read trimmed
    rw [guarded_append (guarded_of_parse readBefore trimmedBefore), guarded, gap] at whole
    cases whole

/-! ## Commands -/

/-- The letters of the symbol of an action. -/
def Action.letters (action : Action) : List Char := action.symbol.toList

theorem Action.ofSymbol?_letters (action : Action) :
    Action.ofSymbol? (String.ofList action.letters) = some action := by
  cases action <;> decide +kernel

theorem Action.solid_letters (action : Action) :
    action.letters ≠ [] ∧ ∀ letter ∈ action.letters, isBlank letter = false := by
  cases action <;> simp [Action.letters, Action.symbol] <;> decide

/-- A command as it is put together. -/
def written (target : List Char) (action : Action) (text : List Char) : List Char :=
  target ++ ' ' :: (action.letters ++ ' ' :: text)

namespace Template

theorem splitBlank?_append {before after : List Char} {blank : Char}
    (solid : ∀ letter ∈ before, isBlank letter = false) (gap : isBlank blank = true) :
    splitBlank? (before ++ blank :: after) = some (before, after) := by
  obtain ⟨taken, left⟩ := @Text.takeWhile_append_of_stop (!isBlank ·) before (blank :: after)
    (by simpa using solid) (by simpa using gap)
  unfold splitBlank?
  rw [left, taken]

theorem splitBlank?_eq_none {letters : List Char}
    (solid : ∀ letter ∈ letters, isBlank letter = false) : splitBlank? letters = none := by
  have left : letters.dropWhile (!isBlank ·) = [] :=
    List.dropWhile_eq_nil_iff.2 (by simpa using solid)
  unfold splitBlank?
  rw [left]

theorem trimEnd_action (action : Action) (text : List Char) :
    Text.trimEnd (action.letters ++ ' ' :: text) =
      action.letters ++ if Text.trimEnd text = [] then [] else ' ' :: Text.trimEnd text := by
  have symbol : Text.trimEnd action.letters = action.letters :=
    Text.trimEnd_eq_self fun letter last =>
      action.solid_letters.2 letter (List.mem_of_getLast? last)
  have gap : Text.trimEnd [' '] = [] := by decide
  rw [Text.trimEnd_append, ← List.singleton_append, Text.trimEnd_append [' '], gap, symbol]
  by_cases empty : Text.trimEnd text = []
  · rw [if_pos empty, if_pos rfl, if_pos empty, List.append_nil]
  · rw [if_neg empty, if_neg (by simp), if_neg empty]
    rfl

/-- What follows the target is cut into the symbol and the text; a blank text is gone already. -/
theorem splitBlank?_action (action : Action) (text : List Char) :
    splitBlank? (Text.trimEnd (action.letters ++ ' ' :: text)) =
        some (action.letters, Text.trimEnd text) ∨
      Text.trimEnd (action.letters ++ ' ' :: text) = action.letters ∧
        splitBlank? action.letters = none ∧ Text.trim text = [] := by
  rw [trimEnd_action]
  by_cases empty : Text.trimEnd text = []
  · have blank : Text.trim text = [] := by
      rw [← Text.trim_trimEnd, empty]
      rfl
    rw [if_pos empty, List.append_nil]
    exact .inr ⟨rfl, splitBlank?_eq_none action.solid_letters.2, blank⟩
  · rw [if_neg empty]
    exact .inl (splitBlank?_append action.solid_letters.2 (by decide))

theorem trim_written {target : List Char} (filled : target ≠ [])
    (trimmed : Text.trim target = target) (action : Action) (text : List Char) :
    Text.trim (written target action text) =
      target ++ ' ' :: Text.trimEnd (action.letters ++ ' ' :: text) := by
  have first : ∀ letter ∈ (written target action text).head?, isBlank letter = false := by
    intro letter member
    refine Text.head?_trim target letter ?_
    rw [trimmed]
    cases target with
    | nil => exact (filled rfl).elim
    | cons letter rest => exact member
  have solid : Text.trimEnd (action.letters ++ ' ' :: text) ≠ [] := by
    rw [trimEnd_action]
    exact List.append_ne_nil_of_left_ne_nil action.solid_letters.1 _
  have gap : Text.trimEnd (' ' :: (action.letters ++ ' ' :: text)) =
      ' ' :: Text.trimEnd (action.letters ++ ' ' :: text) := by
    rw [← List.singleton_append, Text.trimEnd_append, if_neg solid]
    rfl
  unfold Text.trim
  rw [Text.trimStart_eq_self first, written, Text.trimEnd_append, gap, if_neg (by simp)]

variable {target text : List Char} {action : Action} {reference : Reference} {given : Expression}

theorem ne_nil_of_parse (read : Reference.parse target = .ok reference) : target ≠ [] := by
  rintro rfl
  cases read

theorem checkExpression_eq_ok {expression : Expression}
    (fits : expression.isEmpty = true ↔ action = .clear) :
    checkExpression action expression = .ok () := by
  unfold checkExpression
  by_cases clear : action = .clear
  · rw [if_pos clear, if_pos (fits.2 clear)]
  · rw [if_neg clear, if_neg fun empty => clear (fits.1 empty)]

/-- A command whose target has no blank is read as it was put together. -/
theorem parse_of_solid (read : Reference.parse target = .ok reference)
    (trimmed : Text.trim target = target) (solid : ∀ letter ∈ target, isBlank letter = false)
    {expression : Expression} (readText : Expression.parse (Text.trim text) = .ok expression)
    (fits : expression.isEmpty = true ↔ action = .clear) :
    parse (String.ofList (written target action text)) = .ok ⟨String.ofList
      (Text.trim (written target action text)), reference, action, expression⟩ := by
  have start : Text.trimStart (Text.trimEnd (action.letters ++ ' ' :: text)) =
      Text.trimEnd (action.letters ++ ' ' :: text) := by
    refine Text.trimStart_eq_self fun letter first => ?_
    rw [trimEnd_action, List.head?_append_of_ne_nil _ action.solid_letters.1] at first
    exact action.solid_letters.2 letter (List.mem_of_head? first)
  unfold parse
  simp only [String.toList_ofList]
  rw [trim_written (ne_nil_of_parse read) trimmed, splitBlank?_append solid (by decide)]
  have symbol : action.letters.isEmpty = false := by
    simpa using action.solid_letters.1
  rcases splitBlank?_action action text with cut | ⟨whole, uncut, empty⟩
  · simp only [read, start, cut, Text.trim_trimEnd, symbol, Action.ofSymbol?_letters, readText]
    change Except.bind (checkExpression action expression) _ = _
    rw [checkExpression_eq_ok fits]
    rfl
  · rw [whole] at start
    rw [empty] at readText
    simp only [read, whole, start, uncut, symbol, Action.ofSymbol?_letters, readText]
    change Except.bind (checkExpression action expression) _ = _
    rw [checkExpression_eq_ok fits]
    rfl

/-- A command whose target has a blank is refused. -/
theorem parse_of_gap (read : Reference.parse target = .ok reference)
    (trimmed : Text.trim target = target) (gap : ∃ letter ∈ target, isBlank letter = true) :
    ∃ fault, parse (String.ofList (written target action text)) = .error (.target fault) := by
  -- The first blank of the target ends what is taken for the target.
  obtain ⟨blank, found⟩ := Option.isSome_iff_exists.1 (List.find?_isSome.2 gap)
  obtain ⟨here, before, after, rfl, solid⟩ := List.find?_eq_some_iff_append.1 found
  obtain ⟨fault, failed⟩ := parse_before_blank read trimmed (by simpa using solid) here
  refine ⟨fault, ?_⟩
  unfold parse
  simp only [String.toList_ofList]
  rw [trim_written (ne_nil_of_parse read) trimmed, List.append_assoc, List.cons_append,
    splitBlank?_append (by simpa using solid) here]
  simp only [failed]
  rfl

/-- A command put together from a target, an action and an expression for it is read as these parts
exactly if the target has no blank; otherwise the target is refused. -/
theorem parse_written_iff (action : Action) (read : Reference.parse target = .ok reference)
    (trimmed : Text.trim target = target) (readText : Expression.parse text = .ok given)
    (fits : given.isEmpty = true ↔ action = .clear) :
    ∃ expression, Expression.parse (Text.trim text) = .ok expression ∧
      (parse (String.ofList (written target action text)) = .ok ⟨String.ofList
          (Text.trim (written target action text)), reference, action, expression⟩ ↔
        ∀ letter ∈ target, isBlank letter = false) ∧
      ((∃ letter ∈ target, isBlank letter = true) →
        ∃ fault, parse (String.ofList (written target action text)) = .error (.target fault)) := by
  obtain ⟨expression, readTrimmed, same⟩ := Expression.parse_trim readText
  refine ⟨expression, readTrimmed, ⟨fun parsed letter member => ?_, fun solid => ?_⟩,
    parse_of_gap read trimmed⟩
  · refine Bool.eq_false_iff.2 fun blank => ?_
    obtain ⟨fault, failed⟩ := parse_of_gap read trimmed ⟨letter, member, blank⟩
    cases parsed.symm.trans failed
  · exact parse_of_solid read trimmed solid readTrimmed (same ▸ fits)

theorem parse_written_point :
    Reference.parse "A[point].x".toList =
      .ok ⟨.nodes [⟨.head, some ⟨"point", false⟩⟩], ["x"], false, none⟩ ∧
    ∃ expression, Expression.parse "\x7b\x7bB\x7d\x7d + 1".toList = .ok expression ∧
      parse "A[point].x +=  \x7b\x7bB\x7d\x7d + 1 " = .ok ⟨"A[point].x +=  \x7b\x7bB\x7d\x7d + 1",
        ⟨.nodes [⟨.head, some ⟨"point", false⟩⟩], ["x"], false, none⟩, .increase, expression⟩ := by
  have read : Reference.parse "A[point].x".toList =
      .ok ⟨.nodes [⟨.head, some ⟨"point", false⟩⟩], ["x"], false, none⟩ := by decide +kernel
  have readText : Expression.parse " \x7b\x7bB\x7d\x7d + 1 ".toList = .ok
      ⟨[.text " ", .reference ⟨.nodes [⟨.reference, none⟩], [], false, none⟩, .text " + 1 "]⟩ := by
    decide +kernel
  obtain ⟨expression, readTrimmed, exact, -⟩ :=
    parse_written_iff .increase read (by decide +kernel) readText (by decide)
  exact ⟨read, expression, readTrimmed, exact.2 (by simp; decide)⟩

/-- A concept named by two words can be filtered for in an expression, but not in a target. -/
theorem not_forall_parse_written :
    ¬∀ (target text : List Char) (action : Action) (reference : Reference) (given : Expression),
      Reference.parse target = .ok reference → Text.trim target = target →
        Expression.parse text = .ok given → (given.isEmpty = true ↔ action = .clear) →
          ∃ template, parse (String.ofList (written target action text)) = .ok template ∧
            template.target = reference := by
  intro all
  obtain ⟨template, parsed, -⟩ := all "A[point vector].x".toList ['1'] .assign
    ⟨.nodes [⟨.head, some ⟨"point vector", false⟩⟩], ["x"], false, none⟩ ⟨[.text "1"]⟩
    (by decide +kernel) (by decide +kernel) (by decide +kernel) (by decide)
  have failed : (parse (String.ofList (written "A[point vector].x".toList .assign ['1']))).isOk =
      false := by decide +kernel
  rw [parsed] at failed
  cases failed

end Template

end ConceptLaws.Command
