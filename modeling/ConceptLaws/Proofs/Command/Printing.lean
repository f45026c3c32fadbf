import ConceptLaws.Proofs.Command.Spelling

/-! References printed and read back.
What is printed is the spelling of the reference without the blanks in its filters. It reads back as
the reference unless such a blank kept a mark from being the negation: of a concept that starts with
a mark and is not negated, the printed text says the negation. -/

namespace ConceptLaws.Command

/-- A concept that starts with a mark would, right after the bracket, be read as negated. -/
def ConceptFilter.Legible (filter : ConceptFilter) : Prop :=
  filter.negated = false → filter.concept.toList.head? ≠ some '!'

namespace Reference

def filters (reference : Reference) : List ConceptFilter :=
  match reference.base with
  | .named _ => []
  | .nodes steps => steps.filterMap Step.filter

end Reference

/-! ## The printed spelling -/

/-- The filter without blanks inside its brackets. -/
def FilterSpelling.tidy (filter : FilterSpelling) : FilterSpelling :=
  ⟨filter.negated, Text.trim filter.content⟩

def StepSpelling.tidy (step : StepSpelling) : StepSpelling :=
  ⟨step.selector, step.filter.map FilterSpelling.tidy⟩

def BaseSpelling.tidy : BaseSpelling → BaseSpelling
  | named variableName => named variableName
  | nodes steps => nodes (steps.map StepSpelling.tidy)

def Spelling.tidy (spelling : Spelling) : Spelling := { spelling with base := spelling.base.tidy }

theorem FilterSpelling.filter_tidy (filter : FilterSpelling) :
    filter.tidy.filter = filter.filter := by
  unfold FilterSpelling.tidy FilterSpelling.filter
  rw [Text.trim_trim]

theorem StepSpelling.step_tidy (step : StepSpelling) : step.tidy.step = step.step := by
  obtain ⟨selector, filter⟩ := step
  cases filter with
  | none => rfl
  | some filter => exact congrArg (fun kept => Step.mk selector (some kept)) filter.filter_tidy

theorem BaseSpelling.base_tidy (base : BaseSpelling) : base.tidy.base = base.base := by
  cases base with
  | named variableName => rfl
  | nodes steps =>
    refine congrArg Base.nodes ?_
    rw [List.map_map]
    exact List.map_congr_left fun step _ => step.step_tidy

/-- Without the blanks the same is meant. -/
theorem Spelling.reference_tidy (spelling : Spelling) :
    spelling.tidy.reference = spelling.reference := by
  unfold Spelling.reference Spelling.tidy
  rw [BaseSpelling.base_tidy]

theorem StepSpelling.toList_display (spelled : StepSpelling) :
    spelled.step.display.toList = spelled.tidy.letters := by
  obtain ⟨selector, filter⟩ := spelled
  cases filter with
  | none => simp [Step.display, StepSpelling.step, StepSpelling.letters, StepSpelling.tidy]
  | some filter =>
    obtain ⟨negated, content⟩ := filter
    cases negated
    all_goals simp [Step.display, StepSpelling.step, StepSpelling.letters, StepSpelling.tidy,
      FilterSpelling.filter, ConceptFilter.display, FilterSpelling.letters, FilterSpelling.tidy]

theorem BaseSpelling.toList_display (base : BaseSpelling) :
    base.base.display.map String.toList = base.tidy.parts := by
  cases base with
  | named variableName =>
    simp [BaseSpelling.base, BaseSpelling.tidy, BaseSpelling.parts, Base.display]
  | nodes steps =>
    simp [BaseSpelling.base, BaseSpelling.tidy, BaseSpelling.parts, Base.display,
      StepSpelling.toList_display]

theorem Spelling.toList_display (spelling : Spelling) :
    spelling.reference.display.toList = spelling.tidy.letters := by
  obtain ⟨base, key, recursive, bind⟩ := spelling
  have names : (key.map String.ofList).map String.toList = key := by simp
  unfold Reference.display Spelling.letters Spelling.reference Spelling.flags Spelling.tidy
    Text.join
  dsimp only
  rw [String.toList_append, String.toList_append, String.toList_intercalate, List.map_append,
    BaseSpelling.toList_display, names, List.append_assoc]
  cases recursive <;> cases bind <;> simp

/-! ## Blanks around the printed text -/

/-- Trimming leaves the text alone. -/
def Tight (letters : List Char) : Prop :=
  (∀ letter ∈ letters.head?, Text.isBlank letter = false) ∧
    ∀ letter ∈ letters.getLast?, Text.isBlank letter = false

theorem tight_append {left right : List Char} (tightLeft : Tight left) (tightRight : Tight right) :
    Tight (left ++ right) := by
  refine ⟨fun letter first => ?_, fun letter last => ?_⟩
  · rw [List.head?_append, Option.mem_def, Option.or_eq_some_iff] at first
    rcases first with first | ⟨-, first⟩
    · exact tightLeft.1 letter first
    · exact tightRight.1 letter first
  · rw [List.getLast?_append, Option.mem_def, Option.or_eq_some_iff] at last
    rcases last with last | ⟨-, last⟩
    · exact tightRight.2 letter last
    · exact tightLeft.2 letter last

theorem tight_of_all {letters : List Char} (all : ∀ letter ∈ letters, Text.isBlank letter = false) :
    Tight letters :=
  ⟨fun letter first => all letter (List.mem_of_mem_head? first),
    fun letter last => all letter (List.mem_of_mem_getLast? last)⟩

theorem tight_name {letters : List Char} (named : IsName letters) : Tight letters :=
  tight_of_all fun letter member => Text.isBlank_of_isWordChar (named.2 letter member)

theorem tight_cons {letter : Char} {letters : List Char} (solid : Text.isBlank letter = false)
    (tight : Tight letters) : Tight (letter :: letters) := by
  have single : Tight [letter] := tight_of_all (by simpa using solid)
  exact tight_append single tight

/-- Whatever stands between the brackets. -/
theorem FilterSpelling.tight (filter : FilterSpelling) : Tight filter.letters := by
  refine ⟨fun letter first => ?_, fun letter last => ?_⟩
  · obtain rfl := Option.some.inj first
    decide
  · have closing : filter.letters.getLast? = some ']' := by
      unfold FilterSpelling.letters
      rw [← List.append_assoc, ← List.cons_append]
      exact List.getLast?_concat
    obtain rfl := Option.some.inj (closing.symm.trans last)
    decide

theorem StepSpelling.tight (step : StepSpelling) : Tight step.letters := by
  obtain ⟨selector, filter⟩ := step
  have solid : Text.isBlank selector.letter = false := by
    cases selector <;> decide
  refine tight_cons solid ?_
  cases filter with
  | none => exact tight_of_all (by simp)
  | some filter => exact filter.tight

theorem tight_dots {parts : List (List Char)} (tight : ∀ part ∈ parts, Tight part) :
    Tight (dots parts) := by
  induction parts with
  | nil => exact tight_of_all (by simp [dots])
  | cons first parts ih =>
    rw [List.forall_mem_cons] at tight
    exact tight_append (tight_cons (by decide) tight.1) (ih tight.2)

theorem tight_intercalate {parts : List (List Char)} (tight : ∀ part ∈ parts, Tight part) :
    Tight (['.'].intercalate parts) := by
  cases parts with
  | nil => exact tight_of_all (by simp)
  | cons first parts =>
    rw [List.forall_mem_cons] at tight
    rw [intercalate_dot]
    exact tight_append tight.1 (tight_dots tight.2)

theorem BaseSpelling.Takes.tight {base : BaseSpelling} {key : List (List Char)}
    (takes : base.Takes key) : ∀ part ∈ base.tidy.parts ++ key, Tight part := by
  intro part member
  rw [List.mem_append] at member
  cases base with
  | named variableName =>
    obtain ⟨named, names⟩ := takes
    rcases member with member | member
    · obtain rfl := List.mem_singleton.1 member
      exact tight_cons (by decide) (tight_name named)
    · exact tight_name (names part member)
  | nodes steps =>
    rcases member with member | member
    · obtain ⟨step, -, rfl⟩ := List.mem_map.1 member
      exact step.tight
    · exact tight_name (takes.2.1 part member).1

theorem Spelling.WellFormed.trim_tidy {spelling : Spelling} (well : spelling.WellFormed) :
    Text.trim spelling.tidy.letters = spelling.tidy.letters := by
  suffices Tight spelling.tidy.letters from Text.trim_eq_self this.1 this.2
  refine tight_append (tight_intercalate well.segments.tight) (tight_append ?_ ?_)
  · cases spelling.tidy.recursive
    · exact tight_of_all (by simp)
    · exact tight_cons (by decide) (tight_cons (by decide) (tight_of_all (by simp)))
  · obtain ⟨base, key, recursive, bind⟩ := spelling
    cases bind with
    | none => exact tight_of_all (by simp [Spelling.tidy])
    | some name => exact tight_cons (by decide) (tight_name (well.bind name rfl))

/-! ## Reading back -/

theorem FilterSpelling.WellFormed.closed_tidy {filter : FilterSpelling} (well : filter.WellFormed) :
    filter.tidy.Closed :=
  fun member => well.closed ((Text.trim_sublist _).subset member)

theorem FilterSpelling.WellFormed.tidy_iff {filter : FilterSpelling} (well : filter.WellFormed) :
    filter.tidy.WellFormed ↔ filter.filter.Legible := by
  have concept : filter.filter.concept.toList = filter.tidy.content := String.toList_ofList
  unfold ConceptFilter.Legible
  rw [concept]
  refine ⟨fun tidy => tidy.marked, fun legible => ⟨well.closed_tidy, ?_, legible⟩⟩
  by_contra blank
  obtain ⟨letter, member, solid⟩ := well.filled
  have nothing : Text.trim filter.content = [] := by
    rw [← Text.trim_trim, Text.trim_eq_nil_iff]
    intro letter member
    by_contra solid
    exact blank ⟨letter, member, Bool.eq_false_iff.2 solid⟩
  rw [Text.trim_eq_nil_iff.1 nothing letter member] at solid
  cases solid

theorem StepSpelling.WellFormed.tidy_iff {spelled : StepSpelling} (well : spelled.WellFormed) :
    spelled.tidy.WellFormed ↔ ∀ filter ∈ spelled.step.filter, filter.Legible := by
  obtain ⟨selector, filter⟩ := spelled
  cases filter with
  | none => simp [StepSpelling.WellFormed, StepSpelling.tidy, StepSpelling.step]
  | some filter =>
    simp [StepSpelling.WellFormed, StepSpelling.tidy, StepSpelling.step,
      (well filter rfl).tidy_iff]

theorem Spelling.WellFormed.closed_tidy {spelling : Spelling} (well : spelling.WellFormed) :
    spelling.tidy.base.Closed := by
  obtain ⟨base, key, recursive, bind⟩ := spelling
  cases base with
  | named variableName => trivial
  | nodes steps =>
    intro step member filter kept
    obtain ⟨step, listed, rfl⟩ := List.mem_map.1 member
    obtain ⟨filter, held, rfl⟩ := Option.map_eq_some_iff.1 kept
    exact (well.segments.1 step listed filter held).closed_tidy

/-- The printed spelling may be written exactly if every filter is legible. -/
theorem Spelling.WellFormed.tidy_iff {spelling : Spelling} (well : spelling.WellFormed) :
    spelling.tidy.WellFormed ↔ ∀ filter ∈ spelling.reference.filters, filter.Legible := by
  obtain ⟨base, key, recursive, bind⟩ := spelling
  cases base with
  | named variableName =>
    exact iff_of_true well (fun _ member => nomatch member)
  | nodes steps =>
    obtain ⟨all, keyed, filled⟩ := well.segments
    constructor
    · intro tidy filter member
      obtain ⟨step, stepped, kept⟩ := List.mem_filterMap.1 member
      obtain ⟨spelled, listed, rfl⟩ := List.mem_map.1 stepped
      exact (all spelled listed).tidy_iff.1
        (tidy.segments.1 _ (List.mem_map_of_mem listed)) filter kept
    · intro legible
      refine ⟨⟨fun step member => ?_, keyed, filled.imp_left (by simp)⟩, well.bind⟩
      obtain ⟨spelled, listed, rfl⟩ := List.mem_map.1 member
      refine (all spelled listed).tidy_iff.2 fun filter kept => legible filter ?_
      exact List.mem_filterMap.2 ⟨_, List.mem_map_of_mem listed, kept⟩

namespace Reference

/-- A reference that was read is printed as a text that reads back as it exactly if no filter has a
concept that starts with a mark without being negated. -/
theorem parse_display_iff {letters : List Char} {reference : Reference}
    (parsed : parse letters = .ok reference) :
    parse reference.display.toList = .ok reference ↔
      ∀ filter ∈ reference.filters, filter.Legible := by
  obtain ⟨spelling, well, -, rfl⟩ := spelled_of_ofTrimmed parsed
  unfold parse
  rw [spelling.toList_display, well.trim_tidy, ← well.tidy_iff]
  constructor
  · intro back
    obtain ⟨other, wellOther, same, means⟩ := spelled_of_ofTrimmed back
    rw [← letters_injective_of_reference wellOther.segments.closed well.closed_tidy
      (means.trans spelling.reference_tidy.symm) same]
    exact wellOther
  · intro tidy
    rw [ofTrimmed_letters tidy, spelling.reference_tidy]

theorem parse_display_filtered :
    parse "A[ point ].C[!x y].k:R>d".toList = .ok ⟨.nodes [⟨.head, some ⟨"point", false⟩⟩,
      ⟨.children, some ⟨"x y", true⟩⟩], ["k"], true, some "d"⟩ ∧
    parse (Reference.mk (.nodes [⟨.head, some ⟨"point", false⟩⟩,
      ⟨.children, some ⟨"x y", true⟩⟩]) ["k"] true (some "d")).display.toList =
        .ok ⟨.nodes [⟨.head, some ⟨"point", false⟩⟩, ⟨.children, some ⟨"x y", true⟩⟩], ["k"], true,
          some "d"⟩ := by
  have read : parse "A[ point ].C[!x y].k:R>d".toList = .ok ⟨.nodes [⟨.head, some ⟨"point", false⟩⟩,
      ⟨.children, some ⟨"x y", true⟩⟩], ["k"], true, some "d"⟩ := by decide +kernel
  refine ⟨read, (parse_display_iff read).2 ?_⟩
  unfold ConceptFilter.Legible
  decide

/-- A blank before the mark keeps it from being the negation; printed, the concept stands right
after the bracket. -/
theorem not_forall_parse_display : ¬ ∀ (letters : List Char) (reference : Reference),
    parse letters = .ok reference → parse reference.display.toList = .ok reference := by
  intro back
  have lost := back "A[ !x].k".toList ⟨.nodes [⟨.head, some ⟨"!x", false⟩⟩], ["k"], false, none⟩
    (by decide +kernel)
  exact absurd lost (by decide +kernel)

end Reference

end ConceptLaws.Command
