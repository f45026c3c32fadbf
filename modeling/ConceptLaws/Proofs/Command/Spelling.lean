import ConceptLaws.Command.Reference
import ConceptLaws.Proofs.Outcome
import ConceptLaws.Proofs.Text

/-! Spellings of references.
A spelling is a reference as it is written: its segments with dots between them and its flags, with
the text of every filter as it stands in the brackets. A text reads as a reference exactly when it
has a spelling; the spelling is the only one, and the reference is what it says. -/

namespace ConceptLaws.Command

/-- A name is a run of letters, numbers and underscores. -/
def IsName (letters : List Char) : Prop :=
  letters ≠ [] ∧ ∀ letter ∈ letters, Text.isWordChar letter = true

/-- A key that is told from a selector: it is not exactly one selector letter. -/
def IsKey (letters : List Char) : Prop :=
  IsName letters ∧ ∀ selector : Selector, letters ≠ [selector.letter]

/-- What stands in the brackets of a filter. -/
structure FilterSpelling where
  negated : Bool
  /-- The text after the negation mark, blanks included. -/
  content : List Char

structure StepSpelling where
  selector : Selector
  filter : Option FilterSpelling

inductive BaseSpelling where
  | named (variableName : List Char)
  | nodes (steps : List StepSpelling)

structure Spelling where
  base : BaseSpelling
  key : List (List Char)
  recursive : Bool
  bind : Option (List Char)

/-! ## What is written -/

def FilterSpelling.letters (filter : FilterSpelling) : List Char :=
  '[' :: ((if filter.negated then ['!'] else []) ++ (filter.content ++ [']']))

def StepSpelling.letters (step : StepSpelling) : List Char :=
  step.selector.letter :: (step.filter.map FilterSpelling.letters).getD []

def BaseSpelling.parts : BaseSpelling → List (List Char)
  | named variableName => ['$' :: variableName]
  | nodes steps => steps.map StepSpelling.letters

def Spelling.flags (spelling : Spelling) : List Char :=
  (if spelling.recursive then [':', 'R'] else []) ++ (spelling.bind.map ('>' :: ·)).getD []

def Spelling.letters (spelling : Spelling) : List Char :=
  ['.'].intercalate (spelling.base.parts ++ spelling.key) ++ spelling.flags

/-! ## What is meant -/

/-- The blanks around a concept are not part of it. -/
def FilterSpelling.filter (filter : FilterSpelling) : ConceptFilter :=
  ⟨String.ofList (Text.trim filter.content), filter.negated⟩

def StepSpelling.step (step : StepSpelling) : Step :=
  ⟨step.selector, step.filter.map FilterSpelling.filter⟩

def BaseSpelling.base : BaseSpelling → Base
  | named variableName => .named (String.ofList variableName)
  | nodes steps => .nodes (steps.map StepSpelling.step)

def Spelling.reference (spelling : Spelling) : Reference :=
  ⟨spelling.base.base, spelling.key.map String.ofList, spelling.recursive,
    spelling.bind.map String.ofList⟩

/-! ## What may be written -/

/-- The first closing bracket ends the filter. -/
def FilterSpelling.Closed (filter : FilterSpelling) : Prop := ']' ∉ filter.content

/-- A mark right after the opening bracket is always the negation. -/
structure FilterSpelling.WellFormed (filter : FilterSpelling) : Prop where
  closed : filter.Closed
  filled : ∃ letter ∈ filter.content, Text.isBlank letter = false
  marked : filter.negated = false → filter.content.head? ≠ some '!'

def StepSpelling.WellFormed (step : StepSpelling) : Prop :=
  ∀ filter ∈ step.filter, filter.WellFormed

/-- Keys after a variable may be any names; after selectors, or first, they are none of these. -/
def BaseSpelling.Takes (key : List (List Char)) : BaseSpelling → Prop
  | named variableName => IsName variableName ∧ ∀ name ∈ key, IsName name
  | nodes steps => (∀ step ∈ steps, step.WellFormed) ∧ (∀ name ∈ key, IsKey name) ∧
      (steps ≠ [] ∨ key ≠ [])

/-- Every filter ends at its own bracket. -/
def BaseSpelling.Closed : BaseSpelling → Prop
  | named _ => True
  | nodes steps => ∀ step ∈ steps, ∀ filter ∈ step.filter, filter.Closed

theorem BaseSpelling.Takes.closed {base : BaseSpelling} {key : List (List Char)}
    (takes : base.Takes key) : base.Closed := by
  cases base with
  | named variableName => trivial
  | nodes steps => exact fun step member filter kept => (takes.1 step member filter kept).closed

structure Spelling.WellFormed (spelling : Spelling) : Prop where
  segments : spelling.base.Takes spelling.key
  bind : ∀ name ∈ spelling.bind, IsName name

namespace Selector

theorem ofLetter?_letter (selector : Selector) : ofLetter? selector.letter = some selector := by
  cases selector <;> rfl

theorem ofLetter?_eq_some {letter : Char} {selector : Selector}
    (found : ofLetter? letter = some selector) : letter = selector.letter := by
  unfold ofLetter? at found
  split at found
  all_goals cases found
  all_goals rfl

end Selector

/-! ## Ends of segments -/

/-- A segment without a filter may end in front of the rest. -/
def Parts (rest : List Char) : Prop := ∀ letter ∈ rest.head?, letter = '.' ∨ letter = ':' ∨ letter = '>'

/-- The last segment may end in front of the rest. -/
def Stops (rest : List Char) : Prop := ∀ letter ∈ rest.head?, letter = ':' ∨ letter = '>'

theorem Stops.parts {rest : List Char} (stops : Stops rest) : Parts rest :=
  fun letter first => Or.inr (stops letter first)

theorem parts_dot (rest : List Char) : Parts ('.' :: rest) := by
  intro letter first
  exact Or.inl (Option.some.inj first).symm

theorem Parts.isWordChar {rest : List Char} (parts : Parts rest) :
    ∀ letter ∈ rest.head?, Text.isWordChar letter = false := by
  intro letter first
  rcases parts letter first with rfl | rfl | rfl
  · decide
  · decide
  · decide

/-- The parts with a dot before each of them. -/
def dots (parts : List (List Char)) : List Char := parts.flatMap ('.' :: ·)

theorem intercalate_dot (first : List Char) (rest : List (List Char)) :
    ['.'].intercalate (first :: rest) = first ++ dots rest := by
  induction rest generalizing first with
  | nil => simp [dots]
  | cons second rest ih =>
    rw [List.intercalate_cons_cons, ih]
    simp [dots]

theorem dots_eq {parts : List (List Char)} (filled : parts ≠ []) :
    dots parts = '.' :: ['.'].intercalate parts := by
  obtain ⟨first, rest, rfl⟩ := List.exists_cons_of_ne_nil filled
  rw [intercalate_dot]
  simp [dots]

theorem parts_dots {parts : List (List Char)} {rest : List Char} (stops : Stops rest) :
    Parts (dots parts ++ rest) := by
  cases parts with
  | nil => exact stops.parts
  | cons first parts => exact parts_dot _

namespace Reference

/-! ## Equations of the reader -/

theorem suffixes_eq (total : Nat) (rest : Rest) : suffixes total rest =
    match afterDot? rest with
    | none => .ok ([], rest)
    | some more => (do
      let (first, after) ← name total more
      let (others, last) ← suffixes total after
      .ok (first :: others, last)) := by
  rw [suffixes]
  split
  · simp only [*]
  split
  · simp only [*, Bind.bind, Except.bind]
  split
  · simp only [*, Bind.bind, Except.bind]
  · simp only [*, Bind.bind, Except.bind]

theorem keys_eq (total : Nat) (rest : Rest) : keys total rest =
    if atSelector rest then .error (.selectorAfterKey (place total rest))
    else (do
      let (first, after) ← name total rest
      match afterDot? after with
      | none => .ok ([first], after)
      | some more =>
        let (others, last) ← keys total more
        .ok (first :: others, last)) := by
  rw [keys]
  split
  · rfl
  split
  · simp only [*, Bind.bind, Except.bind]
  split
  · simp only [*, Bind.bind, Except.bind]
  split
  · simp only [*, Bind.bind, Except.bind]
  · simp only [*, Bind.bind, Except.bind]

theorem segments_eq (total : Nat) (rest : Rest) : segments total rest =
    if atSelector rest then (do
      let (first, after) ← step total rest
      match afterDot? after with
      | none => .ok ([first], [], after)
      | some more =>
        let (others, names, last) ← segments total more
        .ok (first :: others, names, last))
    else (do
      let (names, after) ← keys total rest
      .ok ([], names, after)) := by
  rw [segments]
  split
  · split
    · simp only [*, Bind.bind, Except.bind]
    split
    · simp only [*, Bind.bind, Except.bind]
    split
    · simp only [*, Bind.bind, Except.bind]
    · simp only [*, Bind.bind, Except.bind]
  · split
    · simp only [*, Bind.bind, Except.bind]
    · simp only [*, Bind.bind, Except.bind]

/-! ## What is spelled is read -/

variable {total : Nat} {rest : List Char}

theorem name_append {letters : List Char} (named : IsName letters)
    (stop : ∀ letter ∈ rest.head?, Text.isWordChar letter = false) :
    name total (letters ++ rest) = .ok (String.ofList letters, rest) := by
  obtain ⟨filled, all⟩ := named
  obtain ⟨taken, left⟩ := Text.takeWhile_append_of_stop all stop
  unfold name
  rw [taken, left, if_neg (by simpa using filled)]

theorem afterDot?_of_stops (stops : Stops rest) : afterDot? rest = none := by
  cases rest with
  | nil => rfl
  | cons first rest =>
    rcases stops first rfl with rfl | rfl
    · rfl
    · rfl

theorem endsSegment_of_parts (parts : Parts rest) : endsSegment rest = true := by
  cases rest with
  | nil => rfl
  | cons first rest => rcases parts first rfl with rfl | rfl | rfl <;> rfl

theorem negation_append {filter : FilterSpelling} (well : filter.WellFormed) (rest : List Char) :
    negation ((if filter.negated then ['!'] else []) ++ (filter.content ++ rest)) =
      (filter.negated, filter.content ++ rest) := by
  obtain ⟨letter, member, -⟩ := well.filled
  cases marked : filter.negated with
  | true => rfl
  | false =>
    have plain := well.marked marked
    cases written : filter.content with
    | nil => simp [written] at member
    | cons first content =>
      rw [written] at plain
      unfold negation
      split
      · rename_i same
        simp only [List.cons_append, Bool.false_eq_true, if_false, List.nil_append,
          List.cons.injEq] at same
        exact (plain (congrArg some same.1)).elim
      · rfl

theorem takeWhile_of_closed {filter : FilterSpelling} (closed : filter.Closed)
    (rest : Rest) : (filter.content ++ ']' :: rest).takeWhile (· != ']') = filter.content ∧
      (filter.content ++ ']' :: rest).dropWhile (· != ']') = ']' :: rest := by
  refine Text.takeWhile_append_of_stop (fun letter member => ?_) (by simp)
  exact bne_iff_ne.2 fun same => closed (same ▸ member)

theorem conceptFilter_append {filter : FilterSpelling} (well : filter.WellFormed) (opened : Nat) :
    conceptFilter total opened ((if filter.negated then ['!'] else []) ++
      (filter.content ++ ']' :: rest)) = .ok (filter.filter, rest) := by
  obtain ⟨taken, left⟩ := takeWhile_of_closed well.closed rest
  have filled : Text.trim filter.content ≠ [] := by
    obtain ⟨letter, member, solid⟩ := well.filled
    intro nothing
    rw [Text.trim_eq_nil_iff.1 nothing letter member] at solid
    cases solid
  unfold conceptFilter
  rw [negation_append well]
  simp only [left, taken]
  rw [if_neg (by simpa using filled)]
  rfl

theorem step_append {spelled : StepSpelling} (well : spelled.WellFormed) (parts : Parts rest) :
    step total (spelled.letters ++ rest) = .ok (spelled.step, rest) := by
  obtain ⟨selector, filter⟩ := spelled
  unfold StepSpelling.letters step
  simp only [List.cons_append, Selector.ofLetter?_letter]
  cases filter with
  | none =>
    cases rest with
    | nil => rfl
    | cons first rest => rcases parts first rfl with rfl | rfl | rfl <;> rfl
  | some filter =>
    have read (opened : Nat) : conceptFilter total opened ((if filter.negated then ['!'] else []) ++
        (filter.content ++ ']' :: rest)) = .ok (filter.filter, rest) :=
      conceptFilter_append (well filter rfl) opened
    simp only [Option.map_some, Option.getD_some, FilterSpelling.letters, List.cons_append,
      List.append_assoc, List.nil_append, read]
    rfl

theorem atSelector_step (spelled : StepSpelling) (parts : Parts rest) :
    atSelector (spelled.letters ++ rest) = true := by
  obtain ⟨selector, filter⟩ := spelled
  unfold StepSpelling.letters atSelector
  simp only [List.cons_append, Selector.ofLetter?_letter, Option.isSome_some, Bool.true_and]
  cases filter with
  | none => exact endsSegment_of_parts parts
  | some filter => rfl

theorem atSelector_key {letters : List Char} (key : IsKey letters) :
    atSelector (letters ++ rest) = false := by
  obtain ⟨⟨filled, all⟩, plain⟩ := key
  match letters with
  | [] => exact (filled rfl).elim
  | [single] =>
    cases found : Selector.ofLetter? single with
    | none => simp [atSelector, found]
    | some selector => exact (plain selector (by rw [Selector.ofLetter?_eq_some found])).elim
  | first :: second :: letters =>
    have word := all second (by simp)
    have inside : endsSegment (second :: (letters ++ rest)) = false := by
      refine Bool.eq_false_iff.2 fun ends => ?_
      simp only [endsSegment, Bool.or_eq_true, beq_iff_eq] at ends
      rcases ends with ((rfl | rfl) | rfl) | rfl
      all_goals exact absurd word (by decide)
    simp [atSelector, inside]

theorem suffixes_append {names : List (List Char)} (named : ∀ name ∈ names, IsName name)
    (stops : Stops rest) :
    suffixes total (dots names ++ rest) = .ok (names.map String.ofList, rest) := by
  induction names with
  | nil =>
    rw [suffixes_eq]
    simp [dots, afterDot?_of_stops stops]
  | cons first names ih =>
    have read : name total (first ++ (dots names ++ rest)) =
        .ok (String.ofList first, dots names ++ rest) :=
      name_append (named first List.mem_cons_self) (parts_dots stops).isWordChar
    have split : dots (first :: names) ++ rest = '.' :: (first ++ (dots names ++ rest)) := by
      simp [dots]
    rw [split, suffixes_eq]
    simp only [afterDot?, read, Bind.bind, Except.bind,
      ih fun name member => named name (List.mem_cons_of_mem _ member)]
    rfl

/-- By induction on the keys after the first one. -/
theorem keys_append {names : List (List Char)} : ∀ {first : List Char},
    (∀ name ∈ first :: names, IsKey name) → Stops rest →
      keys total (first ++ (dots names ++ rest)) =
        .ok ((first :: names).map String.ofList, rest) := by
  induction names with
  | nil =>
    intro first keyed stops
    have key := keyed first List.mem_cons_self
    rw [keys_eq, atSelector_key key, dots, List.flatMap_nil, List.nil_append,
      name_append key.1 stops.parts.isWordChar]
    simp [Bind.bind, Except.bind, afterDot?_of_stops stops]
  | cons second names ih =>
    intro first keyed stops
    have key := keyed first List.mem_cons_self
    have split : dots (second :: names) ++ rest = '.' :: (second ++ (dots names ++ rest)) := by
      simp [dots]
    have others := ih (fun name member => keyed name (List.mem_cons_of_mem _ member)) stops
    rw [keys_eq, atSelector_key key, split, name_append key.1 (parts_dot _).isWordChar]
    simp only [Bind.bind, Except.bind, afterDot?, others, Bool.false_eq_true, if_false]
    rfl

theorem segments_keys {first : List Char} {names : List (List Char)}
    (keyed : ∀ name ∈ first :: names, IsKey name) (stops : Stops rest) :
    segments total (first ++ (dots names ++ rest)) =
      .ok ([], (first :: names).map String.ofList, rest) := by
  rw [segments_eq, atSelector_key (keyed first List.mem_cons_self), keys_append keyed stops]
  rfl

/-- By induction on the steps after the first one. -/
theorem segments_steps {names : List (List Char)} (keyed : ∀ name ∈ names, IsKey name)
    (stops : Stops rest) {steps : List StepSpelling} : ∀ {first : StepSpelling},
      (∀ step ∈ first :: steps, step.WellFormed) →
        segments total (first.letters ++ (dots (steps.map StepSpelling.letters ++ names) ++ rest)) =
          .ok ((first :: steps).map StepSpelling.step, names.map String.ofList, rest) := by
  induction steps with
  | nil =>
    intro first well
    have parts : Parts (dots names ++ rest) := parts_dots stops
    rw [List.map_nil, List.nil_append, segments_eq, atSelector_step first parts,
      step_append (well first List.mem_cons_self) parts]
    cases names with
    | nil =>
      rw [dots, List.flatMap_nil, List.nil_append]
      simp [Bind.bind, Except.bind, afterDot?_of_stops stops]
    | cons second names =>
      have split : dots (second :: names) ++ rest = '.' :: (second ++ (dots names ++ rest)) := by
        simp [dots]
      have others : segments total (second ++ (dots names ++ rest)) =
          .ok ([], (second :: names).map String.ofList, rest) := segments_keys keyed stops
      rw [split]
      simp only [Bind.bind, Except.bind, afterDot?, others, if_true]
      rfl
  | cons second steps ih =>
    intro first well
    have split : dots ((second :: steps).map StepSpelling.letters ++ names) ++ rest =
        '.' :: (second.letters ++ (dots (steps.map StepSpelling.letters ++ names) ++ rest)) := by
      simp [dots]
    have others := ih fun step member => well step (List.mem_cons_of_mem _ member)
    rw [split, segments_eq, atSelector_step first (parts_dot _),
      step_append (well first List.mem_cons_self) (parts_dot _)]
    simp only [Bind.bind, Except.bind, afterDot?, others, if_true]
    rfl

theorem body_of_first {letters : List Char} (plain : letters.head? ≠ some '$') :
    body total letters = (do
      let (steps, names, last) ← segments total letters
      .ok (.nodes steps, names, last)) := by
  unfold body
  split
  · simp at plain
  · rfl

theorem head?_step (spelled : StepSpelling) (rest : List Char) :
    (spelled.letters ++ rest).head? ≠ some '$' := by
  obtain ⟨selector, filter⟩ := spelled
  cases selector <;> simp [StepSpelling.letters, Selector.letter]

theorem head?_name {letters : List Char} (named : IsName letters) (rest : List Char) :
    (letters ++ rest).head? ≠ some '$' := by
  obtain ⟨filled, all⟩ := named
  cases letters with
  | nil => exact (filled rfl).elim
  | cons first letters =>
    intro same
    obtain rfl : first = '$' := Option.some.inj same
    exact absurd (all '$' List.mem_cons_self) (by decide)

theorem body_append {base : BaseSpelling} {key : List (List Char)} (takes : base.Takes key)
    (stops : Stops rest) : body total (['.'].intercalate (base.parts ++ key) ++ rest) =
      .ok (base.base, key.map String.ofList, rest) := by
  cases base with
  | named variableName =>
    obtain ⟨named, names⟩ := takes
    have first : name total (variableName ++ (dots key ++ rest)) =
        .ok (String.ofList variableName, dots key ++ rest) :=
      name_append named (parts_dots stops).isWordChar
    rw [BaseSpelling.parts, List.singleton_append, intercalate_dot, List.cons_append, List.cons_append,
      List.append_assoc]
    unfold body
    simp only [first, suffixes_append names stops, Bind.bind, Except.bind]
    rfl
  | nodes steps =>
    obtain ⟨well, keyed, filled⟩ := takes
    rw [BaseSpelling.parts]
    cases steps with
    | cons first steps =>
      rw [List.map_cons, List.cons_append, intercalate_dot, List.append_assoc,
        body_of_first (head?_step first _), segments_steps keyed stops well]
      rfl
    | nil =>
      cases key with
      | nil => simp at filled
      | cons first names =>
        rw [List.map_nil, List.nil_append, intercalate_dot, List.append_assoc,
          body_of_first (head?_name (keyed first List.mem_cons_self).1 _),
          segments_keys keyed stops]
        rfl

theorem stops_flags (spelling : Spelling) : Stops spelling.flags := by
  unfold Spelling.flags Stops
  cases spelling.recursive <;> cases spelling.bind <;> simp

theorem recursiveFlag_flags (spelling : Spelling) : recursiveFlag total spelling.flags =
    .ok (spelling.recursive, (spelling.bind.map ('>' :: ·)).getD []) := by
  unfold Spelling.flags
  cases spelling.recursive <;> cases spelling.bind <;> rfl

theorem binding_spelled {bind : Option (List Char)} (named : ∀ name ∈ bind, IsName name) :
    binding total ((bind.map ('>' :: ·)).getD []) = .ok (bind.map String.ofList, []) := by
  cases bind with
  | none => rfl
  | some letters =>
    have read : name total (letters ++ []) = .ok (String.ofList letters, []) :=
      name_append (named letters rfl) (by simp)
    rw [List.append_nil] at read
    simp only [Option.map_some, Option.getD_some, binding, read]
    rfl

theorem letters_ne_nil {spelling : Spelling} (well : spelling.WellFormed) :
    spelling.letters ≠ [] := by
  intro nothing
  obtain ⟨base, key, recursive, bind⟩ := spelling
  have segments := (List.append_eq_nil_iff.1 nothing).1
  have takes := well.segments
  cases base with
  | named variableName =>
    rw [BaseSpelling.parts, List.singleton_append, intercalate_dot] at segments
    cases segments
  | nodes steps =>
    obtain ⟨-, keyed, filled⟩ := takes
    cases steps with
    | cons first steps =>
      rw [BaseSpelling.parts, List.map_cons, List.cons_append, intercalate_dot] at segments
      cases segments
    | nil =>
      cases key with
      | nil => simp at filled
      | cons first names =>
        rw [BaseSpelling.parts, List.map_nil, List.nil_append, intercalate_dot] at segments
        exact (keyed first List.mem_cons_self).1.1 (List.append_eq_nil_iff.1 segments).1

/-- What is spelled is read as what is meant. -/
theorem ofTrimmed_letters {spelling : Spelling} (well : spelling.WellFormed) :
    ofTrimmed spelling.letters = .ok spelling.reference := by
  have filled := letters_ne_nil well
  unfold ofTrimmed
  rw [if_neg (by simpa using filled)]
  generalize spelling.letters.length = total
  rw [Spelling.letters, body_append well.segments (stops_flags spelling)]
  simp only [Bind.bind, Except.bind, recursiveFlag_flags, binding_spelled well.bind]
  rfl

/-! ## What is read is spelled -/

theorem spelled_of_name {found : String} {after : Rest} (read : name total rest = .ok (found, after)) :
    ∃ letters, IsName letters ∧ found = String.ofList letters ∧ rest = letters ++ after ∧
      ∀ letter ∈ after.head?, Text.isWordChar letter = false := by
  unfold name at read
  split at read
  · cases read
  · rename_i filled
    obtain ⟨rfl, rfl⟩ := Prod.mk.inj (Except.ok.inj read)
    refine ⟨rest.takeWhile Text.isWordChar, ⟨by simpa using filled, fun letter member => ?_⟩, rfl,
      List.takeWhile_append_dropWhile.symm, Text.head?_dropWhile _ _⟩
    exact List.all_eq_true.1 List.all_takeWhile letter member

theorem spelled_of_conceptFilter {opened : Nat} {found : ConceptFilter} {after : Rest}
    (read : conceptFilter total opened rest = .ok (found, after)) :
    ∃ filter : FilterSpelling, filter.WellFormed ∧ found = filter.filter ∧
      '[' :: rest = filter.letters ++ after := by
  have marked : rest = (if (negation rest).1 then ['!'] else []) ++ (negation rest).2 ∧
      ((negation rest).1 = false → (negation rest).2.head? ≠ some '!') := by
    unfold negation
    split
    · exact ⟨rfl, fun impossible => by cases impossible⟩
    · rename_i plain
      refine ⟨rfl, fun _ first => ?_⟩
      cases rest with
      | nil => cases first
      | cons letter rest =>
        obtain rfl := Option.some.inj first
        exact plain rest rfl
  unfold conceptFilter at read
  generalize negation rest = marking at *
  obtain ⟨negated, content⟩ := marking
  dsimp only at *
  split at read
  · cases read
  rename_i closing later cut
  split at read
  · cases read
  rename_i filled
  obtain ⟨rfl, rfl⟩ := Prod.mk.inj (Except.ok.inj read)
  have bracket : closing = ']' := by
    have stopped := Text.head?_dropWhile (· != ']') content closing (by rw [cut]; rfl)
    simpa using stopped
  have parts := List.takeWhile_append_dropWhile (p := (· != ']')) (l := content)
  rw [cut, bracket] at parts
  refine ⟨⟨negated, content.takeWhile (· != ']')⟩, ⟨fun member => ?_, ?_, fun plain first => ?_⟩, rfl,
    ?_⟩
  · simpa using List.all_eq_true.1 List.all_takeWhile _ member
  · by_contra blank
    refine filled ?_
    rw [List.isEmpty_iff, Text.trim_eq_nil_iff]
    intro letter member
    by_contra solid
    exact blank ⟨letter, member, Bool.eq_false_iff.2 solid⟩
  · refine marked.2 plain ?_
    rw [← parts, List.head?_append, first]
    rfl
  · rw [marked.1, FilterSpelling.letters]
    simpa using parts.symm

theorem spelled_of_step {found : Step} {after : Rest} (read : step total rest = .ok (found, after)) :
    ∃ spelled : StepSpelling, spelled.WellFormed ∧ found = spelled.step ∧
      rest = spelled.letters ++ after := by
  unfold step at read
  split at read
  · cases read
  split at read
  · cases read
  rename_i letter later _ selector known
  obtain rfl := Selector.ofLetter?_eq_some known
  split at read
  · rename_i content
    split at read
    · cases read
    rename_i filter last kept
    obtain ⟨rfl, rfl⟩ := Prod.mk.inj (Except.ok.inj read)
    obtain ⟨spelled, well, rfl, same⟩ := spelled_of_conceptFilter kept
    refine ⟨⟨selector, some spelled⟩, fun filter member => ?_, rfl, ?_⟩
    · obtain rfl := Option.some.inj member
      exact well
    · rw [same]
      rfl
  · obtain ⟨rfl, rfl⟩ := Prod.mk.inj (Except.ok.inj read)
    exact ⟨⟨selector, none⟩, by simp [StepSpelling.WellFormed], rfl, rfl⟩

theorem afterDot?_eq_some {more : Rest} (found : afterDot? rest = some more) :
    rest = '.' :: more := by
  unfold afterDot? at found
  split at found
  · rw [Option.some.inj found]
  · cases found

/-- A name that is no selector here is a key if the segment ends after it. -/
theorem isKey_of_name {letters after : List Char} (named : IsName letters)
    (plain : atSelector (letters ++ after) = false) (ends : endsSegment after = true) :
    IsKey letters := by
  refine ⟨named, fun selector same => ?_⟩
  rw [same] at plain
  simp [atSelector, Selector.ofLetter?_letter, ends] at plain

theorem spelled_of_suffixes {found : List String} {after : Rest}
    (read : suffixes total rest = .ok (found, after)) :
    ∃ names, (∀ name ∈ names, IsName name) ∧ found = names.map String.ofList ∧
      rest = dots names ++ after := by
  fun_induction suffixes total rest generalizing found after with
  | case1 =>
    obtain ⟨rfl, rfl⟩ := Prod.mk.inj (Except.ok.inj read)
    exact ⟨[], by simp, rfl, rfl⟩
  | case2 => cases read
  | case3 => cases read
  | case4 rest more dotted first later named _ _ others last others_read ih =>
    obtain ⟨rfl, rfl⟩ := Prod.mk.inj (Except.ok.inj read)
    obtain ⟨letters, isName, rfl, same, -⟩ := spelled_of_name named
    obtain ⟨names, all, rfl, rfl⟩ := ih others_read
    refine ⟨letters :: names, List.forall_mem_cons.2 ⟨isName, all⟩, rfl, ?_⟩
    rw [afterDot?_eq_some dotted, same]
    simp [dots]

theorem spelled_of_keys {found : List String} {after : Rest}
    (read : keys total rest = .ok (found, after)) (ends : endsSegment after = true) :
    ∃ first names, (∀ name ∈ first :: names, IsKey name) ∧
      found = (first :: names).map String.ofList ∧ rest = first ++ (dots names ++ after) := by
  fun_induction keys total rest generalizing found after with
  | case1 => cases read
  | case2 => cases read
  | case3 rest plain first later named dotted =>
    obtain ⟨rfl, rfl⟩ := Prod.mk.inj (Except.ok.inj read)
    obtain ⟨letters, isName, rfl, rfl, -⟩ := spelled_of_name named
    have key := isKey_of_name isName (Bool.eq_false_iff.2 plain) ends
    exact ⟨letters, [], by simpa using key, rfl, rfl⟩
  | case4 => cases read
  | case5 rest plain first later named more dotted _ _ others last others_read ih =>
    obtain ⟨rfl, rfl⟩ := Prod.mk.inj (Except.ok.inj read)
    obtain ⟨letters, isName, rfl, rfl, -⟩ := spelled_of_name named
    obtain rfl := afterDot?_eq_some dotted
    have key := isKey_of_name isName (Bool.eq_false_iff.2 plain) rfl
    obtain ⟨second, names, all, rfl, rfl⟩ := ih others_read ends
    exact ⟨letters, second :: names, List.forall_mem_cons.2 ⟨key, all⟩, rfl, by simp [dots]⟩

theorem spelled_of_segments {found : List Step} {foundNames : List String} {after : Rest}
    (read : segments total rest = .ok (found, foundNames, after))
    (ends : endsSegment after = true) :
    ∃ steps key, (BaseSpelling.nodes steps).Takes key ∧ found = steps.map StepSpelling.step ∧
      foundNames = key.map String.ofList ∧
      rest = ['.'].intercalate (steps.map StepSpelling.letters ++ key) ++ after := by
  fun_induction segments total rest generalizing found foundNames after with
  | case1 => cases read
  | case2 rest _ first later step_read _ =>
    obtain ⟨rfl, same⟩ := Prod.mk.inj (Except.ok.inj read)
    obtain ⟨rfl, rfl⟩ := Prod.mk.inj same
    obtain ⟨spelled, well, rfl, rfl⟩ := spelled_of_step step_read
    refine ⟨[spelled], [], ⟨?_, ?_, Or.inl (List.cons_ne_nil _ _)⟩, rfl, rfl, ?_⟩
    · simpa using well
    · simp
    · simp
  | case3 => cases read
  | case4 rest _ first later step_read more dotted _ _ others names last others_read ih =>
    obtain ⟨rfl, same⟩ := Prod.mk.inj (Except.ok.inj read)
    obtain ⟨rfl, rfl⟩ := Prod.mk.inj same
    obtain ⟨spelled, well, rfl, rfl⟩ := spelled_of_step step_read
    obtain ⟨steps, key, ⟨all, keyed, filled⟩, rfl, rfl, rfl⟩ := ih others_read ends
    obtain rfl := afterDot?_eq_some dotted
    refine ⟨spelled :: steps, key, ⟨List.forall_mem_cons.2 ⟨well, all⟩, keyed,
      Or.inl (List.cons_ne_nil _ _)⟩, rfl, rfl, ?_⟩
    have more : steps.map StepSpelling.letters ++ key ≠ [] := by
      rwa [Ne, List.append_eq_nil_iff, List.map_eq_nil_iff, not_and_or]
    rw [List.map_cons, List.cons_append, intercalate_dot, dots_eq more]
    simp
  | case5 => cases read
  | case6 rest _ names later keys_read =>
    obtain ⟨rfl, same⟩ := Prod.mk.inj (Except.ok.inj read)
    obtain ⟨rfl, rfl⟩ := Prod.mk.inj same
    obtain ⟨first, key, keyed, rfl, rfl⟩ := spelled_of_keys keys_read ends
    refine ⟨[], first :: key, ⟨by simp, keyed, Or.inr (List.cons_ne_nil _ _)⟩, rfl, rfl, ?_⟩
    rw [List.map_nil, List.nil_append, intercalate_dot, List.append_assoc]

theorem spelled_of_body {found : Base} {foundKey : Path} {after : Rest}
    (read : body total rest = .ok (found, foundKey, after)) (ends : endsSegment after = true) :
    ∃ base key, BaseSpelling.Takes key base ∧ found = base.base ∧
      foundKey = key.map String.ofList ∧
      rest = ['.'].intercalate (base.parts ++ key) ++ after := by
  unfold body at read
  split at read
  · obtain ⟨⟨variableName, later⟩, named, read⟩ := bind_eq_ok.1 read
    obtain ⟨⟨names, last⟩, dotted, read⟩ := bind_eq_ok.1 read
    obtain ⟨rfl, same⟩ := Prod.mk.inj (Except.ok.inj read)
    obtain ⟨rfl, rfl⟩ := Prod.mk.inj same
    obtain ⟨letters, isName, rfl, rfl, -⟩ := spelled_of_name named
    obtain ⟨key, all, rfl, rfl⟩ := spelled_of_suffixes dotted
    refine ⟨.named letters, key, ⟨isName, all⟩, rfl, rfl, ?_⟩
    rw [BaseSpelling.parts, List.singleton_append, intercalate_dot]
    simp
  · obtain ⟨⟨steps, names, last⟩, segmented, read⟩ := bind_eq_ok.1 read
    obtain ⟨rfl, same⟩ := Prod.mk.inj (Except.ok.inj read)
    obtain ⟨rfl, rfl⟩ := Prod.mk.inj same
    obtain ⟨steps, key, takes, rfl, rfl, rfl⟩ := spelled_of_segments segmented ends
    exact ⟨.nodes steps, key, takes, rfl, rfl, rfl⟩

theorem spelled_of_binding {found : Option String} (read : binding total rest = .ok (found, [])) :
    ∃ bind : Option (List Char), (∀ name ∈ bind, IsName name) ∧
      found = bind.map String.ofList ∧ rest = (bind.map ('>' :: ·)).getD [] := by
  unfold binding at read
  split at read
  · obtain ⟨⟨bound, last⟩, named, read⟩ := bind_eq_ok.1 read
    obtain ⟨rfl, rfl⟩ := Prod.mk.inj (Except.ok.inj read)
    obtain ⟨letters, isName, rfl, rfl, -⟩ := spelled_of_name named
    exact ⟨some letters, by simpa using isName, rfl, by simp⟩
  · obtain ⟨rfl, rfl⟩ := Prod.mk.inj (Except.ok.inj read)
    exact ⟨none, by simp, rfl, rfl⟩

theorem spelled_of_recursiveFlag {found : Bool} {after : Rest}
    (read : recursiveFlag total rest = .ok (found, after)) :
    rest = (if found then [':', 'R'] else []) ++ after := by
  unfold recursiveFlag at read
  split at read
  · obtain ⟨rfl, rfl⟩ := Prod.mk.inj (Except.ok.inj read)
    rfl
  · cases read
  · obtain ⟨rfl, rfl⟩ := Prod.mk.inj (Except.ok.inj read)
    rfl

/-- What is read has a spelling that means it. -/
theorem spelled_of_ofTrimmed {letters : List Char} {reference : Reference}
    (read : ofTrimmed letters = .ok reference) :
    ∃ spelling : Spelling, spelling.WellFormed ∧ spelling.letters = letters ∧
      spelling.reference = reference := by
  unfold ofTrimmed at read
  dsimp only at read
  split at read
  · cases read
  obtain ⟨⟨base, key, afterBody⟩, body_read, read⟩ := bind_eq_ok.1 read
  obtain ⟨⟨recursive, afterFlag⟩, flag_read, read⟩ := bind_eq_ok.1 read
  obtain ⟨⟨bind, last⟩, binding_read, read⟩ := bind_eq_ok.1 read
  dsimp only at read
  split at read
  swap
  · cases read
  rename_i done
  obtain rfl := List.isEmpty_iff.1 done
  obtain rfl := Except.ok.inj read
  obtain ⟨bind, bound, rfl, rfl⟩ := spelled_of_binding binding_read
  obtain rfl := spelled_of_recursiveFlag flag_read
  have stops : Stops ((if recursive then [':', 'R'] else []) ++ (bind.map ('>' :: ·)).getD []) :=
    stops_flags ⟨.nodes [], [], recursive, bind⟩
  obtain ⟨base, key, takes, rfl, rfl, rfl⟩ :=
    spelled_of_body body_read (endsSegment_of_parts stops.parts)
  exact ⟨⟨base, key, recursive, bind⟩, ⟨takes, bound⟩, rfl, rfl⟩

/-! ## One spelling -/

theorem map_ofList_injective : Function.Injective (List.map String.ofList) :=
  List.map_injective_iff.2 fun _ _ => String.ofList_inj.1

/-- A filter ends at its first bracket. -/
theorem filterLetters_cancel {left right : FilterSpelling} (closedLeft : left.Closed)
    (closedRight : right.Closed) (negated : left.negated = right.negated) {after later : Rest}
    (same : left.letters ++ after = right.letters ++ later) : left = right ∧ after = later := by
  obtain ⟨mark, content⟩ := left
  obtain ⟨_, content'⟩ := right
  obtain rfl : mark = _ := negated
  have contents : content ++ ']' :: after = content' ++ ']' :: later := by
    simpa [FilterSpelling.letters] using same
  have taken := takeWhile_of_closed closedLeft after
  have taken' := takeWhile_of_closed closedRight later
  dsimp only at taken taken'
  rw [contents, taken'.1, taken'.2] at taken
  obtain ⟨rfl, rest⟩ := taken
  exact ⟨rfl, (List.cons.inj rest).2.symm⟩

theorem stepLetters_cancel {left right : StepSpelling}
    (closedLeft : ∀ filter ∈ left.filter, filter.Closed)
    (closedRight : ∀ filter ∈ right.filter, filter.Closed)
    (means : left.step = right.step) {after later : Rest}
    (same : left.letters ++ after = right.letters ++ later) : left = right ∧ after = later := by
  obtain ⟨selector, filter⟩ := left
  obtain ⟨_, filter'⟩ := right
  obtain ⟨selectors, filters⟩ := Step.mk.inj means
  obtain rfl : selector = _ := selectors
  have tails := (List.cons.inj same).2
  cases filter with
  | none =>
    cases filter' with
    | none => exact ⟨rfl, tails⟩
    | some _ => cases filters
  | some kept =>
    cases filter' with
    | none => cases filters
    | some kept' =>
      obtain ⟨rfl, rest⟩ := filterLetters_cancel (closedLeft kept rfl)
        (closedRight kept' rfl) (ConceptFilter.mk.inj (Option.some.inj filters)).2 tails
      exact ⟨rfl, rest⟩

/-- By induction on the steps: the letters of the first ones agree, and so do what follows them. -/
theorem steps_cancel {left right : List StepSpelling}
    (closedLeft : ∀ step ∈ left, ∀ filter ∈ step.filter, filter.Closed)
    (closedRight : ∀ step ∈ right, ∀ filter ∈ step.filter, filter.Closed)
    (means : left.map StepSpelling.step = right.map StepSpelling.step) {after later : Rest}
    (same : dots (left.map StepSpelling.letters) ++ after =
      dots (right.map StepSpelling.letters) ++ later) : left = right := by
  induction left generalizing right with
  | nil => exact (List.map_eq_nil_iff.1 means.symm).symm
  | cons first left ih =>
    cases right with
    | nil => cases means
    | cons first' right =>
      obtain ⟨firsts, others⟩ := List.cons.inj means
      rw [List.forall_mem_cons] at closedLeft closedRight
      simp only [List.map_cons, dots, List.flatMap_cons, List.cons_append, List.append_assoc,
        List.cons.injEq, true_and] at same
      obtain ⟨rfl, rest⟩ :=
        stepLetters_cancel closedLeft.1 closedRight.1 firsts same
      rw [ih closedLeft.2 closedRight.2 others rest]

/-- What is meant tells all but the blanks in the filters, and these are read off the letters. -/
theorem letters_injective_of_reference {left right : Spelling} (closedLeft : left.base.Closed)
    (closedRight : right.base.Closed) (means : left.reference = right.reference)
    (same : left.letters = right.letters) : left = right := by
  obtain ⟨base, key, recursive, bind⟩ := left
  obtain ⟨base', key', recursive', bind'⟩ := right
  obtain ⟨bases, keys, recursives, binds⟩ := Reference.mk.inj means
  obtain rfl : key = key' := map_ofList_injective keys
  obtain rfl : recursive = recursive' := recursives
  obtain rfl : bind = bind' := Option.map_injective (fun _ _ => String.ofList_inj.1) binds
  suffices base = base' by rw [this]
  cases base with
  | named variableName =>
    cases base' with
    | named variableName' => rw [String.ofList_inj.1 (Base.named.inj bases)]
    | nodes steps => cases bases
  | nodes steps =>
    cases base' with
    | named variableName => cases bases
    | nodes steps' =>
      cases steps with
      | nil => rw [List.map_eq_nil_iff.1 (Base.nodes.inj bases).symm]
      | cons first steps =>
        cases steps' with
        | nil => cases Base.nodes.inj bases
        | cons first' steps' =>
          have dotted (first : StepSpelling) (steps : List StepSpelling) :
              dots ((first :: steps).map StepSpelling.letters) ++ dots key =
                '.' :: ['.'].intercalate ((BaseSpelling.nodes (first :: steps)).parts ++ key) := by
            rw [BaseSpelling.parts, ← dots_eq (by simp), dots, dots, dots, List.flatMap_append]
          have segments := congrArg ('.' :: ·) (List.append_cancel_right same)
          rw [← dotted, ← dotted] at segments
          rw [steps_cancel closedLeft closedRight (Base.nodes.inj bases) segments]

/-- A text has one spelling. -/
theorem letters_injective {left right : Spelling} (wellLeft : left.WellFormed)
    (wellRight : right.WellFormed) (same : left.letters = right.letters) : left = right := by
  have read := ofTrimmed_letters wellLeft
  rw [same, ofTrimmed_letters wellRight] at read
  exact letters_injective_of_reference wellLeft.segments.closed wellRight.segments.closed
    (Except.ok.inj read).symm same

/-- The reader accepts exactly the texts that have a spelling, blanks around them aside: a text is
read as a reference if and only if it is spelled in one way, and that way means the reference. -/
theorem parse_eq_ok_iff {letters : List Char} {reference : Reference} :
    parse letters = .ok reference ↔ ∃ spelling : Spelling, spelling.WellFormed ∧
      spelling.letters = Text.trim letters ∧ spelling.reference = reference ∧
      ∀ other : Spelling, other.WellFormed → other.letters = Text.trim letters →
        other = spelling := by
  unfold parse
  constructor
  · intro read
    obtain ⟨spelling, well, same, means⟩ := spelled_of_ofTrimmed read
    refine ⟨spelling, well, same, means, fun other wellOther sameOther => ?_⟩
    exact letters_injective wellOther well (sameOther.trans same.symm)
  · rintro ⟨spelling, well, same, rfl, -⟩
    rw [← same, ofTrimmed_letters well]

end Reference

end ConceptLaws.Command
