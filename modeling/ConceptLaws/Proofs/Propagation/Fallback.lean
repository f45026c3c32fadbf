import ConceptLaws.Proofs.Outcome
import ConceptLaws.Proofs.Propagation.Composition

/-! What an execution writes.
A command runs through the valued keys below its recursive sources. For each of them a recursive
source stands with the nearest value at or above that key, but not above the source itself. All
values are computed before the first of them is written. -/

namespace ConceptLaws.Propagation

open Command (Compiled BoundBlock)

namespace Network

variable {network later : Network} {command : Compiled} {recursive : Bool} {suffix : Path}
  {source : Address} {value : Datum}

/-! ## The value of a source -/

/-- The value that a source holds for a suffix: its own, or, if it is recursive, the one at the
longest prefix of the suffix that has one. -/
inductive Holds (network : Network) (suffix : Path) (source : Address) : Bool → Datum → Prop
  | own {value : Datum} (held : network.value? source = some value) :
      Holds network suffix source false value
  | nearest {above : Path} {value : Datum} (within : suffix.isWithin above = true)
      (held : network.value? (source.below above) = some value)
      (bare : ∀ lower : Path, suffix.isWithin lower = true → above.length < lower.length →
        network.value? (source.below lower) = none) :
      Holds network suffix source true value

theorem nearestValue?_eq_some_iff :
    network.nearestValue? source suffix = some value ↔ network.Holds suffix source true value := by
  unfold nearestValue?
  rw [List.findSome?_eq_some_iff]
  have ordered := Path.pairwise_ancestry suffix
  constructor
  · rintro ⟨lowerPaths, above, upper, split, held, bare⟩
    rw [split] at ordered
    have within : suffix.isWithin above = true := by
      rw [← Path.mem_ancestry, split]
      exact List.mem_append_right lowerPaths List.mem_cons_self
    refine .nearest within held fun lower lowerWithin longer => ?_
    have listed : lower ∈ lowerPaths ++ above :: upper := split ▸ Path.mem_ancestry.2 lowerWithin
    rcases List.mem_append.1 listed with before | after
    · exact bare lower before
    · rcases List.mem_cons.1 after with rfl | behind
      · omega
      · have shorter := (List.pairwise_cons.1 (List.pairwise_append.1 ordered).2.1).1 lower behind
        omega
  · intro holds
    cases holds with
    | @nearest above _ within held bare =>
      obtain ⟨lowerPaths, upper, split⟩ := List.append_of_mem (Path.mem_ancestry.2 within)
      refine ⟨lowerPaths, above, upper, split, held, fun lower before => ?_⟩
      rw [split] at ordered
      apply bare lower
      · rw [← Path.mem_ancestry, split]
        exact List.mem_append_left _ before
      · exact (List.pairwise_append.1 ordered).2.2 lower before above List.mem_cons_self

theorem holds_iff : network.Holds suffix source recursive value ↔
    (if recursive then network.nearestValue? source suffix else network.value? source) =
      some value := by
  cases recursive with
  | true => exact nearestValue?_eq_some_iff.symm
  | false =>
    constructor
    · rintro ⟨held⟩
      exact held
    · exact .own

/-- A source is the symbol of an entity that binds less tightly than the owner of the command. -/
def Loosens (network : Network) (command : Compiled) (source : Address) : Prop :=
  source.path = symbolPath ∧ ∃ own other, command.precedence = some own ∧
    network.precedence? source.tree = some other ∧ own < other

/-- What stands for a source: the value that it holds, in parentheses if it is a symbol that has to
be set apart. -/
def Contributes (network : Network) (command : Compiled) (recursive : Bool) (suffix : Path)
    (source : Address) (value : Datum) : Prop :=
  ∃ held, network.Holds suffix source recursive held ∧
    (network.Loosens command source → value = .text (Markup.fence held.display)) ∧
    (¬network.Loosens command source → value = held)

theorem fenced_of_loosens (loosens : network.Loosens command source) (held : Datum) :
    network.fenced command source held = .text (Markup.fence held.display) := by
  obtain ⟨symbol, own, other, ownGroup, otherGroup, less⟩ := loosens
  simp only [fenced, symbol, ownGroup, otherGroup, less, ↓reduceIte]

theorem fenced_of_not_loosens (tight : ¬network.Loosens command source) (held : Datum) :
    network.fenced command source held = held := by
  unfold fenced
  split
  · rename_i symbol
    split
    · rename_i own other ownGroup otherGroup
      exact if_neg fun less => tight ⟨symbol, own, other, ownGroup, otherGroup, less⟩
    · rfl
  · rfl

theorem operand?_eq_some_iff : network.operand? command recursive suffix source = some value ↔
    network.Contributes command recursive suffix source value := by
  unfold operand?
  rw [Option.map_eq_some_iff]
  constructor
  · rintro ⟨held, found, rfl⟩
    exact ⟨held, holds_iff.2 found, fun loosens => fenced_of_loosens loosens held,
      fun tight => fenced_of_not_loosens tight held⟩
  · rintro ⟨held, holds, fenced, plain⟩
    refine ⟨held, holds_iff.1 holds, ?_⟩
    by_cases loosens : network.Loosens command source
    · rw [fenced loosens, fenced_of_loosens loosens]
    · rw [plain loosens, fenced_of_not_loosens loosens]

theorem operand?_eq_none_iff : network.operand? command recursive suffix source = none ↔
    ∀ value, ¬network.Contributes command recursive suffix source value := by
  rw [Option.eq_none_iff_forall_ne_some]
  exact forall_congr' fun value => not_congr operand?_eq_some_iff

/-! ## The part of a block -/

/-- The values that stand for a list of sources, in order. -/
inductive Gathers (network : Network) (command : Compiled) (recursive : Bool) (suffix : Path) :
    List Address → List Datum → Prop
  | nil : Gathers network command recursive suffix [] []
  | present {source : Address} {value : Datum} {keys : List Address} {values : List Datum}
      (gives : network.Contributes command recursive suffix source value)
      (rest : Gathers network command recursive suffix keys values) :
      Gathers network command recursive suffix (source :: keys) (value :: values)
  | absent {source : Address} {keys : List Address} {values : List Datum}
      (silent : ∀ value, ¬network.Contributes command recursive suffix source value)
      (rest : Gathers network command recursive suffix keys values) :
      Gathers network command recursive suffix (source :: keys) values

theorem gathers_iff {keys : List Address} {values : List Datum} :
    network.Gathers command recursive suffix keys values ↔
      keys.filterMap (network.operand? command recursive suffix) = values := by
  constructor
  · intro gathers
    induction gathers with
    | nil => rfl
    | present gives _ ih => rw [List.filterMap_cons, operand?_eq_some_iff.2 gives, ih]
    | absent silent _ ih => rw [List.filterMap_cons, operand?_eq_none_iff.2 silent, ih]
  · rintro rfl
    induction keys with
    | nil => exact .nil
    | cons source rest ih =>
      rw [List.filterMap_cons]
      cases held : network.operand? command recursive suffix source with
      | none => exact .absent (operand?_eq_none_iff.1 held) ih
      | some value => exact .present (operand?_eq_some_iff.1 held) ih

/-- What a block stands for: its text, the value of its one source, or the list of the values that
its several sources have. A block without any value stands for nothing. -/
inductive Denotes (network : Network) (command : Compiled) (suffix : Path) :
    BoundBlock → Arithmetic.Part → Prop
  | text (content : String) : Denotes network command suffix (.text content) (.source content)
  | single {source : Address} {recursive : Bool} {rest : Path} {value : Datum}
      (gives : network.Contributes command recursive suffix source value) :
      Denotes network command suffix (.sources [source] recursive rest) (.operand (some value))
  | several {keys : List Address} {recursive : Bool} {rest : Path} {values : List Datum}
      (many : keys.length ≠ 1) (gathers : network.Gathers command recursive suffix keys values)
      (filled : values ≠ []) :
      Denotes network command suffix (.sources keys recursive rest)
        (.operand (some (.list values)))

theorem blockPart_sources (keys : List Address) (recursive : Bool) (rest : Path) :
    network.blockPart command suffix (.sources keys recursive rest) =
      .operand (match keys.filterMap (network.operand? command recursive suffix) with
        | [] => none
        | first :: more => some (if keys.length = 1 then first else .list (first :: more))) := by
  unfold blockPart
  dsimp only
  generalize keys.filterMap (network.operand? command recursive suffix) = values
  match keys, values with
  | _, [] => rfl
  | [], _ :: _ => rfl
  | [_], _ :: _ => rfl
  | _ :: _ :: _, _ :: _ => simp

theorem denotes_iff {block : BoundBlock} {part : Arithmetic.Part} :
    network.Denotes command suffix block part ↔
      network.blockPart command suffix block = part ∧ part ≠ .operand none := by
  constructor
  · intro denotes
    cases denotes with
    | text content => exact ⟨rfl, nofun⟩
    | single gives =>
      refine ⟨?_, by simp⟩
      rw [blockPart_sources, List.filterMap_cons, operand?_eq_some_iff.2 gives]
      rfl
    | @several keys recursive rest values many gathers filled =>
      refine ⟨?_, by simp⟩
      obtain ⟨first, more, rfl⟩ := List.exists_cons_of_ne_nil filled
      rw [blockPart_sources, gathers_iff.1 gathers]
      simp only [many, ↓reduceIte]
  · rintro ⟨rfl, filled⟩
    cases block with
    | text content => exact .text content
    | sources keys recursive rest =>
      rw [blockPart_sources] at filled ⊢
      cases found : keys.filterMap (network.operand? command recursive suffix) with
      | nil => simp [found] at filled
      | cons first more =>
        by_cases single : keys.length = 1
        · obtain ⟨source, rfl⟩ := List.length_eq_one_iff.1 single
          simp only [List.length_singleton, ↓reduceIte]
          refine .single (operand?_eq_some_iff.1 ?_)
          cases held : network.operand? command recursive suffix source with
          | none => simp [held] at found
          | some value => simpa [held] using (List.cons.inj (by simpa [held] using found)).1
        · simp only [single, ↓reduceIte]
          exact .several single (gathers_iff.2 found) (List.cons_ne_nil first more)

/-! ## Evaluation -/

/-- The expression of a command has a value for a suffix: every block stands for something, and what
they stand for evaluates to it. -/
def Yields (network : Network) (command : Compiled) (suffix : Path) (value : Datum) : Prop :=
  ∃ parts, List.Forall₂ (network.Denotes command suffix) command.blocks parts ∧
    Arithmetic.evaluate parts = .ok value

/-- Where a reference has no value there is no evaluation. -/
theorem ne_missing_of_evaluate {parts : List Arithmetic.Part}
    (evaluated : Arithmetic.evaluate parts = .ok value) :
    ∀ part ∈ parts, part ≠ .operand none := by
  obtain ⟨tokens, spelled, -⟩ := bind_eq_ok.1 evaluated
  clear evaluated
  induction parts generalizing tokens with
  | nil => nofun
  | cons first rest ih =>
    obtain ⟨own, cut, more⟩ := bind_eq_ok.1 spelled
    obtain ⟨others, spelledRest, -⟩ := bind_eq_ok.1 more
    rw [List.forall_mem_cons]
    refine ⟨?_, ih others spelledRest⟩
    rintro rfl
    cases cut

theorem map_blockPart {blocks : List BoundBlock} {parts : List Arithmetic.Part}
    (denotes : List.Forall₂ (network.Denotes command suffix) blocks parts) :
    blocks.map (network.blockPart command suffix) = parts := by
  induction denotes with
  | nil => rfl
  | cons first _ ih => rw [List.map_cons, (denotes_iff.1 first).1, ih]

theorem evaluateAt_eq_ok_iff :
    network.evaluateAt command suffix = .ok value ↔ network.Yields command suffix value := by
  unfold evaluateAt
  constructor
  · intro evaluated
    refine ⟨_, ?_, evaluated⟩
    have present := ne_missing_of_evaluate evaluated
    rw [List.forall_mem_map] at present
    rw [List.forall₂_map_right_iff, List.forall₂_same]
    exact fun block member => denotes_iff.2 ⟨rfl, present block member⟩
  · rintro ⟨parts, denotes, evaluated⟩
    rw [map_blockPart denotes, evaluated]

/-- A block that stands for something has a source. -/
theorem Yields.ne_nil (yields : network.Yields command suffix value) {keys : List Address}
    {recursive : Bool} {rest : Path} (listed : .sources keys recursive rest ∈ command.blocks) :
    keys ≠ [] := by
  rintro rfl
  have present := ne_missing_of_evaluate (evaluateAt_eq_ok_iff.2 yields)
  exact present _ (List.mem_map_of_mem listed) rfl

/-! ## The suffixes -/

/-- The keys whose sub-trees a command runs through: the sources of its recursive blocks, or its
target if only that one is recursive. -/
inductive Spans (command : Compiled) : Address → Prop
  | source {keys : List Address} {rest : Path} {key : Address}
      (listed : .sources keys true rest ∈ command.blocks) (member : key ∈ keys) :
      Spans command key
  | target {target : Address} (plain : ∀ keys rest, .sources keys true rest ∉ command.blocks)
      (through : command.recursiveTarget = true) (bound : command.target = some target) :
      Spans command target

/-- A path leads from a key that the command runs through to a valued key strictly below it. -/
def Supplied (network : Network) (command : Compiled) (suffix : Path) : Prop :=
  suffix ≠ Path.root ∧ ∃ top, Spans command top ∧ (network.value? (top.below suffix)).isSome = true

/-- A command is evaluated for the paths that are supplied, or, if there are none, at the root. -/
def RunsAt (network : Network) (command : Compiled) (suffix : Path) : Prop :=
  network.Supplied command suffix ∨
    suffix = Path.root ∧ ∀ other, ¬network.Supplied command other

theorem mem_recursiveSources {block : BoundBlock} {key : Address} :
    key ∈ recursiveSources block ↔ ∃ keys rest, block = .sources keys true rest ∧ key ∈ keys := by
  cases block with
  | text content => simp [recursiveSources]
  | sources keys recursive rest => cases recursive <;> simp [recursiveSources]

theorem relative?_eq_some_iff {path top : Path} :
    path.relative? top = some suffix ↔ path = top ++ suffix := by
  unfold Path.relative?
  constructor
  · intro found
    split at found
    · rename_i within
      obtain ⟨rest, rfl⟩ := Path.isWithin_iff.1 within
      simpa using found
    · simp at found
  · rintro rfl
    rw [if_pos (Path.isWithin_append top suffix), List.drop_left]

theorem mem_valuedBelow {top : Address} : suffix ∈ network.valuedBelow top ↔
    suffix ≠ Path.root ∧ (network.value? (top.below suffix)).isSome = true := by
  unfold valuedBelow value? cell?
  cases live : network.tree? top.tree with
  | none => simp [Address.below, live]
  | some tree =>
    simp only [List.mem_filterMap, Prod.exists, Tree.mem_descendants, Address.below, live,
      Option.bind_eq_bind, Option.bind_some, Path.join]
    constructor
    · rintro ⟨path, cell, ⟨found, -, different⟩, led⟩
      split at led
      · rename_i valued
        obtain rfl := relative?_eq_some_iff.1 led
        refine ⟨?_, by rw [found]; exact valued⟩
        rintro rfl
        exact different (List.append_nil top.path)
      · simp at led
    · rintro ⟨strict, valued⟩
      cases found : tree.cell? (top.path ++ suffix) with
      | none => simp [found] at valued
      | some cell =>
        rw [found, Option.bind_some] at valued
        refine ⟨top.path ++ suffix, cell, ⟨found, ?_, ?_⟩, ?_⟩
        · exact Path.isWithin_append top.path suffix
        · simpa [Path.root] using strict
        · rw [if_pos valued]
          exact relative?_eq_some_iff.2 rfl

/-- Where every recursive block has a source, the code runs through the keys it is meant to. -/
theorem mem_recursiveTops {key : Address}
    (filled : ∀ keys rest, .sources keys true rest ∈ command.blocks → keys ≠ []) :
    key ∈ recursiveTops command ↔ Spans command key := by
  have sources : ∀ key, key ∈ command.blocks.flatMap recursiveSources ↔
      ∃ keys rest, .sources keys true rest ∈ command.blocks ∧ key ∈ keys := by
    intro key
    rw [List.mem_flatMap]
    constructor
    · rintro ⟨block, listed, member⟩
      obtain ⟨keys, rest, rfl, member⟩ := mem_recursiveSources.1 member
      exact ⟨keys, rest, listed, member⟩
    · rintro ⟨keys, rest, listed, member⟩
      exact ⟨_, listed, mem_recursiveSources.2 ⟨keys, rest, rfl, member⟩⟩
  have bare : command.blocks.flatMap recursiveSources = [] ↔
      ∀ keys rest, .sources keys true rest ∉ command.blocks := by
    rw [List.eq_nil_iff_forall_not_mem]
    constructor
    · intro none keys rest listed
      obtain ⟨key, member⟩ := List.exists_mem_of_ne_nil keys (filled keys rest listed)
      exact none key ((sources key).2 ⟨keys, rest, listed, member⟩)
    · intro plain key member
      obtain ⟨keys, rest, listed, -⟩ := (sources key).1 member
      exact plain keys rest listed
  unfold recursiveTops
  dsimp only
  constructor
  · intro member
    split at member
    · rename_i through
      obtain ⟨none, through⟩ := Bool.and_eq_true_iff.1 through
      exact .target (bare.1 (List.isEmpty_iff.1 none)) through
        (Option.mem_def.1 (Option.mem_toList.1 member))
    · obtain ⟨keys, rest, listed, member⟩ := (sources key).1 member
      exact .source listed member
  · intro spans
    cases spans with
    | @source keys rest _ listed member =>
      have there := (sources key).2 ⟨keys, rest, listed, member⟩
      rw [if_neg]
      · exact there
      · intro through
        have none := List.isEmpty_iff.1 (Bool.and_eq_true_iff.1 through).1
        simp [none] at there
    | target plain through bound =>
      rw [if_pos (by simp [bare.2 plain, through]), bound]
      exact List.mem_singleton_self key

/-- The suffixes for which a command has a value are among those it is evaluated for. -/
theorem mem_suffixes (yields : network.Yields command suffix value) :
    suffix ∈ network.suffixes command ↔ network.RunsAt command suffix := by
  have filled : ∀ keys rest, .sources keys true rest ∈ command.blocks → keys ≠ [] :=
    fun _ _ => yields.ne_nil
  have supplied : ∀ path, path ∈ (recursiveTops command).foldl
      (fun paths top => paths.insertMany (network.valuedBelow top)) (∅ : Std.ExtTreeSet Path) ↔
        network.Supplied command path := by
    intro path
    rw [mem_foldl_insertMany]
    simp only [Std.ExtTreeSet.not_mem_empty, false_or, mem_valuedBelow, mem_recursiveTops filled,
      Supplied]
    constructor
    · rintro ⟨top, spans, strict, valued⟩
      exact ⟨strict, top, spans, valued⟩
    · rintro ⟨strict, top, spans, valued⟩
      exact ⟨top, spans, strict, valued⟩
  unfold suffixes RunsAt
  dsimp only
  split
  · rename_i empty
    have none : ∀ other, ¬network.Supplied command other := by
      intro other given
      have member := (supplied other).2 given
      rw [Std.ExtTreeSet.isEmpty_iff.1 empty] at member
      exact Std.ExtTreeSet.not_mem_empty member
    simp [none]
  · rename_i inhabited
    rw [Std.ExtTreeSet.mem_toList, supplied]
    refine ⟨.inl, fun given => given.resolve_right ?_⟩
    rintro ⟨-, none⟩
    apply inhabited
    rw [Std.ExtTreeSet.isEmpty_iff]
    exact Std.ExtTreeSet.ext_mem fun path => by simp [supplied, none]

theorem pairwise_suffixes (network : Network) (command : Compiled) :
    (network.suffixes command).Pairwise fun left right => compare left right = .lt := by
  unfold suffixes
  dsimp only
  split
  · exact List.pairwise_singleton _ _
  · exact Std.ExtTreeSet.ordered_toList

/-! ## Execution -/

/-- The suffixes for which the expression has a value, with the values. -/
def results (network : Network) (command : Compiled) : List (Path × Datum) :=
  (network.suffixes command).filterMap fun suffix =>
    (network.evaluateAt command suffix).toOption.map fun value => (suffix, value)

theorem mem_results : (suffix, value) ∈ network.results command ↔
    network.RunsAt command suffix ∧ network.Yields command suffix value := by
  unfold results
  rw [List.mem_filterMap]
  constructor
  · rintro ⟨path, listed, made⟩
    cases evaluated : network.evaluateAt command path with
    | error fault => simp [evaluated, Except.toOption] at made
    | ok found =>
      obtain ⟨rfl, rfl⟩ : path = suffix ∧ found = value := by
        simpa [evaluated, Except.toOption] using made
      have yields := evaluateAt_eq_ok_iff.1 evaluated
      exact ⟨(mem_suffixes yields).1 listed, yields⟩
  · rintro ⟨runs, yields⟩
    refine ⟨suffix, (mem_suffixes yields).2 runs, ?_⟩
    rw [evaluateAt_eq_ok_iff.2 yields]
    rfl

theorem pairwise_results (network : Network) (command : Compiled) :
    (network.results command).Pairwise fun left right => compare left.1 right.1 = .lt := by
  unfold results
  rw [List.pairwise_filterMap]
  refine (network.pairwise_suffixes command).imp fun before first made second madeSecond => ?_
  obtain ⟨_, -, rfl⟩ := Option.map_eq_some_iff.1 made
  obtain ⟨_, -, rfl⟩ := Option.map_eq_some_iff.1 madeSecond
  exact before

theorem applyResults_eq (network : Network) (command : Compiled) (target : Address) :
    network.applyResults command target =
      (network.results command).foldl (fun later result =>
        later.applyAction command.action (target.below result.1) result.2) network := by
  unfold applyResults results
  rw [List.foldl_map, List.foldl_filterMap]
  congr 1
  funext later suffix
  cases network.evaluateAt command suffix <;> rfl

/-- Evaluation reads nothing but values and precedence groups. -/
theorem evaluateAt_congr (values : ∀ key, later.value? key = network.value? key)
    (groups : ∀ handle, later.precedence? handle = network.precedence? handle) :
    later.evaluateAt command suffix = network.evaluateAt command suffix := by
  have fenced : later.fenced command = network.fenced command := by
    funext source held
    simp only [Network.fenced, groups]
  have operands : later.operand? command = network.operand? command := by
    funext recursive suffix source
    simp only [operand?, nearestValue?, values, fenced]
  unfold evaluateAt
  congr 2
  funext block
  cases block with
  | text content => rfl
  | sources keys recursive rest => rw [blockPart_sources, blockPart_sources, operands]

/-- The network when the first value is written: the command is marked and counted. -/
def begun (network : Network) (handle : Handle) (command : Compiled) : Network :=
  (network.markExecuted handle command).updateCounts fun counts =>
    { counts with commands := counts.commands + 1 }

theorem value?_begun (handle : Handle) (key : Address) :
    (network.begun handle command).value? key = network.value? key := by
  have marked : (network.markExecuted handle command).cell? key = network.cell? key :=
    network.cell?_setCommand handle _ key
  change (network.markExecuted handle command).value? key = network.value? key
  rw [value?, value?, marked]

theorem precedence?_begun {handle : Handle} (found : network.command? handle = some command)
    (query : Handle) : (network.begun handle command).precedence? query =
      network.precedence? query := by
  have marked := dataRole?_markExecuted found query
  change (network.markExecuted handle command).precedence? query = network.precedence? query
  rw [precedence?, precedence?, marked]

/-- What follows the writes: a variable that the command names is bound to its target. -/
def concluded (network : Network) (cascade : Cascade) (command : Compiled) (target : Address) :
    Network :=
  match command.bind with
  | some name => network.bindVariable cascade command.variableTable name target
  | none => network

/-- An execution applies the action of its command at exactly the paths below the target for which
the command runs and has a value, in their order, with what the values of the network before the
first write make of it. -/
theorem execute_applies {cascade : Cascade} {handle : Handle} {target : Address}
    (found : network.command? handle = some command) (fresh : command.executed = false)
    (bound : command.target = some target) (writes : command.action ≠ .clear) :
    ∃ results : List (Path × Datum),
      results.Pairwise (fun left right => compare left.1 right.1 = .lt) ∧
      (∀ suffix value, (suffix, value) ∈ results ↔
        network.RunsAt command suffix ∧ network.Yields command suffix value) ∧
      network.execute cascade handle =
        (results.foldl (fun later result =>
          later.applyAction command.action (target.below result.1) result.2)
          (network.begun handle command)).concluded cascade command target := by
  have values : ∀ key, (network.begun handle command).value? key = network.value? key :=
    value?_begun handle
  have groups := precedence?_begun found
  refine ⟨(network.begun handle command).results command, pairwise_results _ _, ?_, ?_⟩
  · intro suffix value
    have yields : (network.begun handle command).Yields command suffix value ↔
        network.Yields command suffix value := by
      rw [← evaluateAt_eq_ok_iff, evaluateAt_congr values groups, evaluateAt_eq_ok_iff]
    have runs : (network.begun handle command).RunsAt command suffix ↔
        network.RunsAt command suffix := by
      simp only [RunsAt, Supplied, values]
    rw [mem_results, runs, yields]
  · have carried : (network.markExecuted handle command).carryOut command target =
        (network.begun handle command).applyResults command target := if_neg writes
    rw [← applyResults_eq, ← carried, execute_eq]
    simp only [found, fresh, bound, concluded]
    cases command.bind <;> rfl

/-- Lists `a` and `b` at `b`, with all that is below them. -/
def listing (data : Handle) : Compiled where
  source := "b:R = \x7ba:R, b:R\x7d"
  owner := ⟨1⟩
  variableTable := data
  action := .assign
  target := some ⟨data, ["b"]⟩
  targetSuffix := Path.root
  recursiveTarget := true
  blocks := [.sources [⟨data, ["a"]⟩, ⟨data, ["b"]⟩] true Path.root]
  bind := none
  precedence := none
  executed := false

/-- The command writes where it reads, and below its two sources there are different keys. -/
def overlapping : Network :=
  let (data, network) := (empty 8).create .plain
  let contents := [(["a"], "one"), (["a", "x", "z"], "two"), (["b"], "three"), (["b", "x"], "four")]
  let network := contents.foldl (fun network (path, content) =>
    network.seed data path (.text content) false) network
  (network.create (.command (listing data))).2

theorem execute_applies_overlapping :
    overlapping.command? ⟨1, 0⟩ = some (listing ⟨0, 0⟩) ∧
    ∃ results : List (Path × Datum),
      results.Pairwise (fun left right => compare left.1 right.1 = .lt) ∧
      (∀ suffix value, (suffix, value) ∈ results ↔
        overlapping.RunsAt (listing ⟨0, 0⟩) suffix ∧
          overlapping.Yields (listing ⟨0, 0⟩) suffix value) ∧
      overlapping.execute id ⟨1, 0⟩ =
        (results.foldl (fun later result => later.applyAction .assign
          ((⟨⟨0, 0⟩, ["b"]⟩ : Address).below result.1) result.2)
          (overlapping.begun ⟨1, 0⟩ (listing ⟨0, 0⟩))).concluded id (listing ⟨0, 0⟩)
            ⟨⟨0, 0⟩, ["b"]⟩ := by
  have found : overlapping.command? ⟨1, 0⟩ = some (listing ⟨0, 0⟩) := by decide +kernel
  exact ⟨found, execute_applies found rfl rfl nofun⟩

/-- The second list still has what stood at `b.x` before the first one was written there. -/
example : (overlapping.results (listing ⟨0, 0⟩)).map (fun result => (result.1, result.2.display)) =
    [(["x"], "one,four"), (["x", "z"], "two,four")] := by
  decide +kernel

end Network

end ConceptLaws.Propagation
