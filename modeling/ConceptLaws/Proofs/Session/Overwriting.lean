import ConceptLaws.Proofs.Catalog.Valid
import ConceptLaws.Proofs.Command.Making
import ConceptLaws.Proofs.Propagation.Agenda
import ConceptLaws.Proofs.Session.Resolution

/-! Two assignments to one key.
The one that is executed last counts, and that need not be the one that is listed last. A command
that reads nothing is executed while it is compiled, so it counts against what is compiled before it
and against nothing that still waits then. -/

namespace ConceptLaws.Session

open Propagation Command

variable {session : Session} {name : String} {before middle after : List (EntityId × String)}
  {command first second : EntityId × String}

/-! ## Compiling some of the commands -/

/-- The new trees with some of the commands compiled. -/
def compiledTo (session : Session) (commands : List (EntityId × String)) : Network :=
  performCalls session.seeded.network (compileCalls session.seeded.context commands)

/-- What is done while they are compiled. -/
def compileDeeds (session : Session) (commands : List (EntityId × String)) : List Deed :=
  callDeeds session.seeded.network (compileCalls session.seeded.context commands)

/-- What is done after that, with the other commands still to be compiled. -/
def restDeeds (session : Session) (name : String) (commands others : List (EntityId × String)) :
    List Deed :=
  callDeeds (session.compiledTo commands)
    (compileCalls session.seeded.context others ++ (session.requests name).map Request.call)

/-- The tree is made when a command is compiled after some others. -/
def Makes (session : Session) (before : List (EntityId × String)) (command : EntityId × String)
    (handle : Handle) : Prop :=
  Made (session.compiledTo before) (session.compiledTo (before ++ [command])) handle

instance (session : Session) (before : List (EntityId × String)) (command : EntityId × String)
    (handle : Handle) : Decidable (session.Makes before command handle) :=
  inferInstanceAs (Decidable (Made ..))

theorem compileCalls_append (context : Context) (commands more : List (EntityId × String)) :
    compileCalls context (commands ++ more) =
      compileCalls context commands ++ compileCalls context more :=
  List.map_append

theorem compiledTo_append (session : Session) (before more : List (EntityId × String)) :
    session.compiledTo (before ++ more) =
      performCalls (session.compiledTo before) (compileCalls session.seeded.context more) := by
  rw [compiledTo, compileCalls_append, performCalls_append]
  rfl

theorem compileDeeds_append (session : Session) (before more : List (EntityId × String)) :
    session.compileDeeds (before ++ more) = session.compileDeeds before ++
      callDeeds (session.compiledTo before) (compileCalls session.seeded.context more) := by
  rw [compileDeeds, compileCalls_append, callDeeds_append]
  rfl

theorem resolveDeeds_eq_append {commands others : List (EntityId × String)}
    (listed : session.scripts name = commands ++ others) :
    session.resolveDeeds name =
      session.compileDeeds commands ++ session.restDeeds name commands others := by
  rw [resolveDeeds, calls, listed, compileCalls_append, List.append_assoc, callDeeds_append]
  rfl

theorem sound_compiledTo (sound : session.network.trees.Sound)
    (commands : List (EntityId × String)) : (session.compiledTo commands).trees.Sound :=
  have start := (fresh_seeded sound).unwired.sound.arena
  (keeps_performCalls start _).sound start

theorem keeps_compiledTo (sound : session.network.trees.Sound)
    (before more : List (EntityId × String)) :
    (session.compiledTo before).Keeps (session.compiledTo (before ++ more)) := by
  rw [compiledTo_append]
  exact keeps_performCalls (sound_compiledTo sound before) _

theorem trace_compileDeeds (sound : session.network.trees.Sound)
    {commands others : List (EntityId × String)}
    (listed : session.scripts name = commands ++ others) :
    Network.Trace Network.Quiet session.seeded.network (session.compileDeeds commands)
      (session.compiledTo commands) := by
  have start := (fresh_seeded sound).unwired.sound.arena
  refine session.trace_calls_of name _ (fun call member => ?_) start
  rw [calls, listed, compileCalls_append]
  simp [member]

theorem trace_restDeeds (sound : session.network.trees.Sound)
    {commands others : List (EntityId × String)}
    (listed : session.scripts name = commands ++ others) :
    Network.Trace Network.Quiet (session.compiledTo commands)
      (session.restDeeds name commands others)
      (performCalls session.seeded.network (session.calls name)) := by
  rw [calls, listed, compileCalls_append, List.append_assoc, performCalls_append]
  refine session.trace_calls_of name _ (fun call member => ?_) (sound_compiledTo sound commands)
  rw [calls, listed, compileCalls_append]
  simpa [or_assoc] using Or.inr (List.mem_append.1 member)

/-- One command more. -/
theorem builds_compiledTo (sound : session.network.trees.Sound)
    (before : List (EntityId × String)) (assigns : isAssignmentSource command.2 = true) :
    Builds (isConstantSource command.2 = true) (session.compiledTo before)
      (callDeeds (session.compiledTo before) (compileCalls session.seeded.context [command]))
      (session.compiledTo (before ++ [command])) := by
  rw [compiledTo_append]
  have builds := builds_compileSource session.seeded.context command.1 assigns
    (sound_compiledTo sound before)
  rwa [← List.append_nil (compileSourceDeeds ..)] at builds

/-- Nothing but its own tree is executed while a command without variables is compiled. -/
theorem own_compileCalls (context : Context) {network : Network}
    (commands : List (EntityId × String))
    (plain : ∀ command ∈ commands, isPlainSource command.2 = true) (sound : network.trees.Sound) :
    Own network (callDeeds network (compileCalls context commands)) := by
  induction commands generalizing network with
  | nil => exact own_nil network
  | cons first rest ih =>
    have keeps := keeps_of_trace (trace_compileSource context first.1 sound first.2) sound
    exact (own_compileSource context first.1 (plain first List.mem_cons_self) sound).append keeps
      (ih (fun command member => plain command (List.mem_cons_of_mem first member))
        (keeps.sound sound))

/-! ## The tree of a command -/

variable {at_ : Network} {handle : Handle} {compiled : Compiled} {target : Address}

/-- The trees that a command makes are not there when an earlier one has been compiled. -/
theorem not_issued_of_makes (sound : session.network.trees.Sound)
    (makes : session.Makes (before ++ first :: middle) second handle) :
    ¬(session.compiledTo (before ++ [first])).trees.Issued handle := by
  have keeps := session.keeps_compiledTo sound (before ++ [first]) middle
  rw [List.append_assoc, List.singleton_append] at keeps
  exact fun issued => makes.1 (keeps.issued handle issued)

theorem not_mem_compileDeeds (sound : session.network.trees.Sound)
    {commands others : List (EntityId × String)}
    (listed : session.scripts name = commands ++ others)
    (new : ¬(session.compiledTo commands).trees.Issued handle) :
    .command at_ handle compiled target ∉ session.compileDeeds commands :=
  fun member => new ((trace_compileDeeds sound listed).issued_of_mem
    (fresh_seeded sound).unwired.sound.arena member)

/-- What is executed for an assignment is one. -/
theorem isAssignment_of_makes (sound : session.network.trees.Sound)
    (listed : session.scripts name = before ++ command :: after)
    (assigns : isAssignmentSource command.2 = true) (makes : session.Makes before command handle)
    (member : .command at_ handle compiled target ∈ session.resolveDeeds name) :
    compiled.IsAssignment := by
  have listedThen := listed.trans (List.append_cons ..)
  have builds := builds_compiledTo sound before assigns
  rw [resolveDeeds_eq_append listedThen, compileDeeds_append] at member
  rcases List.mem_append.1 member with early | late
  · rcases List.mem_append.1 early with earlier | compiling
    · exact absurd earlier (not_mem_compileDeeds sound listed makes.1)
    · exact builds.assigns handle makes at_ compiled target compiling
  · exact (builds.assigning handle makes).of_mem (trace_restDeeds sound listedThen)
      (sound_compiledTo sound _) late

/-- A command that reads nothing is executed while it is compiled. So what is not executed up to
then is not executed before it. -/
theorem not_mem_of_constant (sound : session.network.trees.Sound)
    (listed : session.scripts name = before ++ command :: after)
    (assigns : isAssignmentSource command.2 = true)
    (constant : isConstantSource command.2 = true) (makes : session.Makes before command handle)
    {past future : List Deed}
    (split : session.resolveDeeds name = past ++ .command at_ handle compiled target :: future)
    {deed : Deed} (absent : deed ∉ session.compileDeeds (before ++ [command])) : deed ∉ past := by
  have listedThen := listed.trans (List.append_cons ..)
  have builds := builds_compiledTo sound before assigns
  have gone : .command at_ handle compiled target ∉
      session.restDeeds name (before ++ [command]) after :=
    not_mem_of_gone makes.2 (builds.vanishes constant handle makes)
      (trace_restDeeds sound listedThen) (sound_compiledTo sound _)
  have same := (resolveDeeds_eq_append listedThen).symm.trans split
  intro member
  rcases List.append_eq_append_iff.1 same with ⟨between, -, tail⟩ | ⟨between, front, -⟩
  · exact gone (tail ▸ List.mem_append_right between List.mem_cons_self)
  · exact absent (front ▸ List.mem_append_left between member)

/-- Without variables a command that reads something is not executed while others are compiled. -/
theorem not_mem_of_waits (sound : session.network.trees.Sound)
    (listed : session.scripts name = before ++ first :: (middle ++ after))
    (plain : ∀ command ∈ session.scripts name, isPlainSource command.2 = true)
    (reads : isConstantSource first.2 = false) (makes : session.Makes before first handle) :
    .command at_ handle compiled target ∉ session.compileDeeds (before ++ first :: middle) := by
  have split : before ++ first :: middle = (before ++ [first]) ++ middle := by simp
  have silent : callDeeds (session.compiledTo before)
      (compileCalls session.seeded.context [first]) = [] := by
    have nothing : compileSourceDeeds session.seeded.context first.1 (session.compiledTo before)
        first.2 = [] := compileSourceDeeds_of_waits _ _ (plain first (by simp [listed])) reads
    exact (List.append_nil _).trans nothing
  have own := own_compileCalls session.seeded.context middle
    (fun command member => plain command (by simp [listed, member]))
    (sound_compiledTo sound (before ++ [first]))
  intro member
  rw [split, compileDeeds_append, compileDeeds_append, silent, List.append_nil] at member
  rcases List.mem_append.1 member with early | late
  · exact not_mem_compileDeeds sound listed makes.1 early
  · exact own at_ handle compiled target late makes.2

/-! ## The last of two -/

/-- If some member of a list has a property, one has it last. -/
theorem exists_last {α : Type} {property : α → Prop} {items : List α}
    (some_ : ∃ item ∈ items, property item) :
    ∃ before item after, items = before ++ item :: after ∧ property item ∧
      ∀ other ∈ after, ¬property other := by
  induction items with
  | nil => simp at some_
  | cons first rest ih =>
    by_cases further : ∃ item ∈ rest, property item
    · obtain ⟨before, item, after, rfl, holds, last⟩ := ih further
      exact ⟨first :: before, item, after, rfl, holds, last⟩
    · obtain ⟨item, member, holds⟩ := some_
      obtain rfl | later := List.mem_cons.1 member
      · exact ⟨[], item, rest, rfl, holds, fun other listed satisfied =>
          further ⟨other, listed, satisfied⟩⟩
      · exact absurd ⟨item, later, holds⟩ further

/-- What has the property and is not the last that has it comes before. -/
theorem mem_before_of_last {α : Type} {property : α → Prop} {before after : List α} {item other : α}
    (last : ∀ other ∈ after, ¬property other) (member : other ∈ before ++ item :: after)
    (holds : property other) (different : other ≠ item) : other ∈ before := by
  rcases List.mem_append.1 member with earlier | rest
  · exact earlier
  · obtain same | later := List.mem_cons.1 rest
    · exact absurd same different
    · exact absurd holds (last other later)

/-- When an attribute is resolved a command is executed that has the key for its target. -/
def Executes (session : Session) (name : String) (before : List (EntityId × String))
    (command : EntityId × String) (key : Address) : Prop :=
  ∃ (at_ : Network) (handle : Handle) (compiled : Compiled),
    session.Makes before command handle ∧
      .command at_ handle compiled key ∈ session.resolveDeeds name

/-- Two plain assignments that are both executed for a key of an entity, which no other command
writes. -/
structure Rivals (session : Session) (name : String) (before : List (EntityId × String))
    (first : EntityId × String) (middle : List (EntityId × String)) (second : EntityId × String)
    (key : Address) : Prop where
  listed : ∃ after, session.scripts name = before ++ first :: (middle ++ second :: after)
  assigns : isAssignmentSource first.2 = true ∧ isAssignmentSource second.2 = true
  housed : ∃ (id : EntityId) (trees : EntityTrees),
    (session.resolve name).2.trees[id]? = some trees ∧ trees.data = key.tree
  executed : session.Executes name before first key ∧
    session.Executes name (before ++ first :: middle) second key
  alone : ∀ (at_ : Network) (handle : Handle) (compiled : Compiled) (target : Address),
    .command at_ handle compiled target ∈ session.resolveDeeds name →
      at_.Touches compiled target key →
        session.Makes before first handle ∨ session.Makes (before ++ first :: middle) second handle

namespace Rivals

variable {key : Address} {earlier later : List Deed}

theorem isAssignment (rivals : session.Rivals name before first middle second key)
    (sound : session.network.trees.Sound)
    (member : .command at_ handle compiled target ∈ session.resolveDeeds name)
    (makes : session.Makes before first handle ∨
      session.Makes (before ++ first :: middle) second handle) : compiled.IsAssignment := by
  obtain ⟨after, listed⟩ := rivals.listed
  rcases makes with makes | makes
  · exact isAssignment_of_makes sound listed rivals.assigns.1 makes member
  · rw [← List.cons_append, ← List.append_assoc] at listed
    exact isAssignment_of_makes sound listed rivals.assigns.2 makes member

theorem writesAt (rivals : session.Rivals name before first middle second key)
    (sound : session.network.trees.Sound)
    (member : .command at_ handle compiled target ∈ session.resolveDeeds name)
    (makes : session.Makes before first handle ∨
      session.Makes (before ++ first :: middle) second handle) :
    Network.WritesAt key (.command at_ handle compiled target) ↔ key = target :=
  Network.touches_iff_of_isAssignment (rivals.isAssignment sound member makes)

/-- One of the two is the last command that writes the key. -/
theorem exists_last (rivals : session.Rivals name before first middle second key)
    (sound : session.network.trees.Sound) :
    ∃ (earlier : List Deed) (at_ : Network) (handle : Handle) (compiled : Compiled)
      (later : List Deed),
      session.resolveDeeds name = earlier ++ .command at_ handle compiled key :: later ∧
      (∀ deed ∈ later, ¬Network.WritesAt key deed) ∧
      (session.Makes before first handle ∨
        session.Makes (before ++ first :: middle) second handle) := by
  obtain ⟨then_, other, rest, makesOther, ran⟩ := rivals.executed.2
  obtain ⟨earlier, deed, later, split, writes, last⟩ := Session.exists_last
    ⟨_, ran, (rivals.writesAt sound ran (Or.inr makesOther)).2 rfl⟩
  cases deed with
  | callback => exact writes.elim
  | command at_ handle compiled target =>
    have member : .command at_ handle compiled target ∈ session.resolveDeeds name :=
      split ▸ List.mem_append_right earlier List.mem_cons_self
    have makes := rivals.alone at_ handle compiled target member writes
    obtain rfl := (rivals.writesAt sound member makes).1 writes
    exact ⟨earlier, at_, handle, compiled, later, split, last, makes⟩

/-- If the first command reads nothing, it is not the last. -/
theorem makes_second (rivals : session.Rivals name before first middle second key)
    (sound : session.network.trees.Sound) (constant : isConstantSource first.2 = true)
    (split : session.resolveDeeds name = earlier ++ .command at_ handle compiled target :: later)
    (last : ∀ deed ∈ later, ¬Network.WritesAt key deed)
    (makes : session.Makes before first handle ∨
      session.Makes (before ++ first :: middle) second handle) :
    session.Makes (before ++ first :: middle) second handle := by
  refine makes.resolve_left fun makesLast => ?_
  obtain ⟨after, listed⟩ := rivals.listed
  obtain ⟨then_, other, rest, makesOther, ran⟩ := rivals.executed.2
  have new := not_issued_of_makes sound makesOther
  have before_ := mem_before_of_last last (split ▸ ran)
    ((rivals.writesAt sound ran (Or.inr makesOther)).2 rfl) fun same => by
      obtain ⟨-, rfl, -, -⟩ := Deed.command.inj same
      exact new makesLast.2
  refine not_mem_of_constant sound listed rivals.assigns.1 constant makesLast split ?_ before_
  exact not_mem_compileDeeds sound (listed.trans (List.append_cons ..)) new

/-- Without variables, if only the second command reads nothing, it is not the last. -/
theorem makes_first (rivals : session.Rivals name before first middle second key)
    (sound : session.network.trees.Sound)
    (plain : ∀ command ∈ session.scripts name, isPlainSource command.2 = true)
    (reads : isConstantSource first.2 = false) (constant : isConstantSource second.2 = true)
    (split : session.resolveDeeds name = earlier ++ .command at_ handle compiled target :: later)
    (last : ∀ deed ∈ later, ¬Network.WritesAt key deed)
    (makes : session.Makes before first handle ∨
      session.Makes (before ++ first :: middle) second handle) :
    session.Makes before first handle := by
  refine makes.resolve_right fun makesLast => ?_
  obtain ⟨after, listed⟩ := rivals.listed
  have listedSecond : session.scripts name = (before ++ first :: middle) ++ second :: after :=
    listed.trans (by simp)
  obtain ⟨then_, other, rest, makesOther, ran⟩ := rivals.executed.1
  have before_ := mem_before_of_last last (split ▸ ran)
    ((rivals.writesAt sound ran (Or.inl makesOther)).2 rfl) fun same => by
      obtain ⟨-, rfl, -, -⟩ := Deed.command.inj same
      exact not_issued_of_makes sound makesLast makesOther.2
  refine not_mem_of_constant sound listedSecond rivals.assigns.2 constant makesLast split ?_ before_
  rw [List.append_assoc, List.cons_append]
  rw [List.append_cons middle] at listed
  exact not_mem_of_waits sound listed plain reads makesOther

end Rivals

/-- Of two assignments to a key that no other command writes, the key holds in the end what the one
that is executed last left there, which is its result unless the key is primary data. If the first
command listed reads nothing, the second one is the last. If there are no variables and only the
second one reads nothing, the first one is. -/
theorem last_assignment_counts {catalogs : List Catalog} (reached : Reachable catalogs session)
    {key : Address} (rivals : session.Rivals name before first middle second key)
    (ordinary : key.path ≠ symbolPath) :
    ∃ (earlier : List Deed) (at_ : Network) (handle : Handle) (compiled : Compiled)
      (later : List Deed),
      session.resolveDeeds name = earlier ++ .command at_ handle compiled key :: later ∧
      (∀ deed ∈ later, ¬Network.WritesAt key deed) ∧
      (session.Makes before first handle ∨
        session.Makes (before ++ first :: middle) second handle) ∧
      (isConstantSource first.2 = true →
        session.Makes (before ++ first :: middle) second handle) ∧
      ((∀ command ∈ session.scripts name, isPlainSource command.2 = true) →
        isConstantSource first.2 = false → isConstantSource second.2 = true →
          session.Makes before first handle) ∧
      (session.resolve name).2.network.value? key = at_.outcome compiled key ∧
      (¬session.seeded.network.Shielded key → ∀ value,
        at_.evaluateAt compiled Path.root = .ok value →
          (session.resolve name).2.network.value? key = some value) := by
  have sound := reached.arena
  have fresh := fresh_seeded sound
  have arena := fresh.unwired.sound.arena
  have trace := trace_calls sound name
  obtain ⟨earlier, at_, handle, compiled, later, split, last, makes⟩ := rivals.exists_last sound
  have member : .command at_ handle compiled key ∈ session.resolveDeeds name :=
    split ▸ List.mem_append_right earlier List.mem_cons_self
  obtain ⟨id, trees, found, owned⟩ := rivals.housed
  rw [resolve_eq_performCalls] at found ⊢
  have data := fresh.housed id trees found
  rw [owned] at data
  have left := Network.Trace.value?_eq_outcome (split ▸ trace) arena data ordinary
    (rivals.isAssignment sound member makes) last
  refine ⟨earlier, at_, handle, compiled, later, split, last, makes,
    fun constant => rivals.makes_second sound constant split last makes,
    fun plain reads constant => rivals.makes_first sound plain reads constant split last makes,
    left, fun derived value evaluated => left.trans ?_⟩
  obtain ⟨first, reached, -, marked, -⟩ := trace.of_mem arena member
  have retains := reached.trans marked
  obtain ⟨tree, live⟩ := Network.tree?_of_dataRole? (retains.isData data)
  exact Network.outcome_of_not_shielded evaluated (Option.isSome_iff_exists.2 ⟨tree, live⟩)
    fun shielded => derived (retains.shielded data shielded)

/-! ## An inherited command and an own one -/

/-- The commands that are executed, with their targets and what they leave there. -/
def outcomesOf (deeds : List Deed) : List (Handle × Address × Option String) :=
  deeds.filterMap fun deed => match deed with
    | .command at_ handle compiled target =>
      some (handle, target, (at_.outcome compiled target).map Datum.display)
    | .callback _ _ => none

theorem mem_outcomesOf {deeds : List Deed} {shown : Option String} :
    (handle, target, shown) ∈ outcomesOf deeds ↔ ∃ (at_ : Network) (compiled : Compiled),
      .command at_ handle compiled target ∈ deeds ∧
        (at_.outcome compiled target).map Datum.display = shown := by
  unfold outcomesOf
  rw [List.mem_filterMap]
  constructor
  · rintro ⟨deed, member, same⟩
    cases deed with
    | callback => simp at same
    | command at_ other compiled aim =>
      simp only [Option.some.injEq, Prod.mk.injEq] at same
      obtain ⟨rfl, rfl, shown⟩ := same
      exact ⟨at_, compiled, member, shown⟩
  · rintro ⟨at_, compiled, member, rfl⟩
    exact ⟨_, member, rfl⟩

/-- The deeds of a resolution, activation by activation. -/
theorem resolveDeeds_eq (session : Session) (name : String) :
    let compiled := session.compiledTo (session.scripts name)
    let trees := session.seeded.trees.values
    let activated := trees.foldl
      (fun network trees => network.activate ⟨trees.data, Path.parse name⟩) compiled
    session.resolveDeeds name = session.compileDeeds (session.scripts name) ++
      (Network.foldDeeds (fun network trees => network.activate ⟨trees.data, Path.parse name⟩)
        (fun network (trees : EntityTrees) =>
          Network.drainDeeds (network.activateFrom ⟨trees.data, Path.parse name⟩)) compiled trees ++
        Network.drainDeeds (activated.updateAgenda fun agenda =>
          agenda.pushChecks activated.unsettled)) := by
  intro compiled trees activated
  rw [resolveDeeds_eq_append (List.append_nil (session.scripts name)).symm]
  congr 1
  unfold restDeeds requests callDeeds
  simp only [compileCalls, List.map_nil, List.nil_append, List.map_append, List.map_map,
    Network.foldDeeds_append, Network.foldDeeds_map, List.foldl_map]
  exact congrArg _ (List.append_nil _)

/-- If two assignments are all that is executed, and to one key, they have it to themselves. -/
theorem Rivals.of_outcomes {key : Address} {one other : Handle} {left right : Option String}
    (listed : session.scripts name = [first, second])
    (assigns : isAssignmentSource first.2 = true ∧ isAssignmentSource second.2 = true)
    {id : EntityId} {trees : EntityTrees}
    (found : (session.resolve name).2.trees[id]? = some trees) (owned : trees.data = key.tree)
    (makes : session.Makes [] first one ∧ session.Makes [first] second other)
    (outcomes : (outcomesOf (session.resolveDeeds name)).Perm
      [(one, key, left), (other, key, right)]) :
    session.Rivals name [] first [] second key := by
  obtain ⟨thenFirst, compiledFirst, ranFirst, -⟩ :=
    mem_outcomesOf.1 (outcomes.mem_iff.2 List.mem_cons_self)
  obtain ⟨thenSecond, compiledSecond, ranSecond, -⟩ :=
    mem_outcomesOf.1 (outcomes.mem_iff.2 (List.mem_cons_of_mem _ List.mem_cons_self))
  refine ⟨⟨[], listed⟩, assigns, ⟨id, trees, found, owned⟩,
    ⟨⟨thenFirst, one, compiledFirst, makes.1, ranFirst⟩,
      ⟨thenSecond, other, compiledSecond, makes.2, ranSecond⟩⟩,
    fun at_ handle compiled target member _ => ?_⟩
  have entry := outcomes.mem_iff.1 (mem_outcomesOf.2 ⟨at_, compiled, member, rfl⟩)
  simp only [List.mem_cons, List.not_mem_nil, or_false, Prod.mk.injEq] at entry
  obtain ⟨rfl, -⟩ | ⟨rfl, -⟩ := entry
  · exact Or.inl makes.1
  · exact Or.inr makes.2

/-- A concept and one derived from it, each with one command for each of three attributes. -/
def heirDefinition : Definition where
  concepts := [⟨⟨1⟩, "base", [], (((∅ : Std.ExtTreeMap String (List String)).insert "a"
      ["a = \x27x\x27"]).insert "b" ["b = \x7b\x7bconcept.name\x7d\x7d"]).insert "symbol"
      ["symbol = \x27p\x27"], none, false⟩,
    ⟨⟨2⟩, "c", [⟨1⟩], (((∅ : Std.ExtTreeMap String (List String)).insert "a"
      ["a = \x7b\x7bconcept.name\x7d\x7d"]).insert "b" ["b = \x27x\x27"]).insert "symbol"
      ["symbol = \x27q\x27"], none, false⟩]
  laws := []

def heirCatalog : Catalog where
  definition := heirDefinition
  lineages := (∅ : Std.ExtTreeMap ConceptId (List ConceptId)).insertMany
    [((⟨1⟩ : ConceptId), [(⟨1⟩ : ConceptId)]), (⟨2⟩, [⟨1⟩, ⟨2⟩])]
  fingerprint := Fingerprint.ofContent Fingerprint.catalogDomain heirDefinition.toCbor

theorem valid_heirCatalog : heirCatalog.Valid := by
  have concepts : heirDefinition.checkConcepts = .ok () := rfl
  have lineages : heirDefinition.lineages = .ok heirCatalog.lineages := rfl
  have laws : heirDefinition.checkLaws [] [] heirDefinition.laws = .ok () := rfl
  refine ⟨heirDefinition, ?_⟩
  unfold Catalog.ofDefinition
  rw [concepts, lineages, laws]
  rfl

def heirRecords : List EntityRecord := [⟨⟨1⟩, ⟨2⟩, none, none, .empty, none⟩]

def heir : Session := ofRelation heirCatalog .standard
  ((Relation.ofRecords heirRecords heirCatalog).toOption.getD .empty)

theorem reachable_heir : Reachable [heirCatalog] heir := by
  have made : Session.ofRecords heirCatalog .standard heirRecords = .ok heir := rfl
  exact .ofRecords valid_heirCatalog made

theorem outcomesOf_resolveDeeds_heir :
    outcomesOf (heir.resolveDeeds "a") =
      [(⟨2, 0⟩, ⟨⟨0, 0⟩, ["a"]⟩, some "x"), (⟨2, 1⟩, ⟨⟨0, 0⟩, ["a"]⟩, some "c")] ∧
    outcomesOf (heir.resolveDeeds "b") =
      [(⟨3, 0⟩, ⟨⟨0, 0⟩, ["b"]⟩, some "x"), (⟨2, 0⟩, ⟨⟨0, 0⟩, ["b"]⟩, some "c")] ∧
    outcomesOf (heir.resolveDeeds symbolSegment) =
      [(⟨2, 0⟩, ⟨⟨0, 0⟩, symbolPath⟩, some "p"), (⟨2, 1⟩, ⟨⟨0, 0⟩, symbolPath⟩, some "q")] := by
  simp only [resolveDeeds_eq, Network.activate_eq, Network.activateFrom_eq, Agenda.pushChecks_eq]
  refine ⟨?_, ?_, ?_⟩ <;> decide +kernel

theorem trees_resolve_heir (name : String) :
    (heir.resolve name).2.trees[(⟨1⟩ : EntityId)]? = some ⟨⟨0, 0⟩, ⟨1, 0⟩⟩ := by
  rw [resolve_eq]
  change heir.seeded.trees[(⟨1⟩ : EntityId)]? = _
  decide +kernel

/-- What is inherited reads nothing, so the own command is executed last and its result stays. -/
theorem last_assignment_counts_heir :
    ∃ (at_ : Network) (handle : Handle) (compiled : Compiled),
      heir.Makes [(⟨1⟩, "a = \x27x\x27")] (⟨1⟩, "a = \x7b\x7bconcept.name\x7d\x7d") handle ∧
      .command at_ handle compiled ⟨⟨0, 0⟩, ["a"]⟩ ∈ heir.resolveDeeds "a" ∧
      (heir.resolve "a").2.network.value? ⟨⟨0, 0⟩, ["a"]⟩ =
        at_.outcome compiled ⟨⟨0, 0⟩, ["a"]⟩ ∧
      ((heir.resolve "a").2.network.value? ⟨⟨0, 0⟩, ["a"]⟩).map Datum.display = some "c" := by
  obtain ⟨outcomes, -, -⟩ := outcomesOf_resolveDeeds_heir
  have rivals : heir.Rivals "a" [] (⟨1⟩, "a = \x27x\x27") []
      (⟨1⟩, "a = \x7b\x7bconcept.name\x7d\x7d") ⟨⟨0, 0⟩, ["a"]⟩ :=
    .of_outcomes (by decide +kernel) (by decide +kernel) (trees_resolve_heir "a") rfl
      (by decide +kernel) (.of_eq outcomes)
  obtain ⟨earlier, at_, handle, compiled, later, split, -, -, second, -, left, -⟩ :=
    last_assignment_counts reachable_heir rivals (by decide)
  have member : .command at_ handle compiled ⟨⟨0, 0⟩, ["a"]⟩ ∈ heir.resolveDeeds "a" :=
    split ▸ List.mem_append_right earlier List.mem_cons_self
  refine ⟨at_, handle, compiled, second (by decide +kernel), member, left, ?_⟩
  simp only [resolve, activateAll, Network.activate_eq, Network.settle_eq]
  decide +kernel

/-- In the end the key holds what the second command left there. -/
def SecondCounts (session : Session) (name : String) (before : List (EntityId × String))
    (first : EntityId × String) (middle : List (EntityId × String)) (second : EntityId × String)
    (key : Address) : Prop :=
  ∀ (at_ : Network) (handle : Handle) (compiled : Compiled),
    session.Makes (before ++ first :: middle) second handle →
      .command at_ handle compiled key ∈ session.resolveDeeds name →
        (session.resolve name).2.network.value? key = at_.outcome compiled key

/-- What is executed for the second command shows something else than the key in the end. -/
theorem not_secondCounts {key : Address}
    (makes : session.Makes (before ++ first :: middle) second handle)
    {shown : Option String} (ran : (handle, key, shown) ∈ outcomesOf (session.resolveDeeds name))
    (different : ((session.resolve name).2.network.value? key).map Datum.display ≠ shown) :
    ¬session.SecondCounts name before first middle second key := by
  intro counts
  obtain ⟨at_, compiled, member, rfl⟩ := mem_outcomesOf.1 ran
  exact different (congrArg _ (counts at_ handle compiled makes member))

/-- The second command does not always count: the first one does when it is the one that waits, and
a symbol is put together anew in any case. -/
theorem not_forall_secondCounts :
    (¬∀ (catalogs : List Catalog) (session : Session) (name : String)
      (before middle : List (EntityId × String)) (first second : EntityId × String) (key : Address),
      Reachable catalogs session → session.Rivals name before first middle second key →
        key.path ≠ symbolPath → session.SecondCounts name before first middle second key) ∧
    ¬∀ (catalogs : List Catalog) (session : Session) (name : String)
      (before middle : List (EntityId × String)) (first second : EntityId × String) (key : Address),
      Reachable catalogs session → session.Rivals name before first middle second key →
        key.path = symbolPath → session.SecondCounts name before first middle second key := by
  obtain ⟨-, outcomes, symbols⟩ := outcomesOf_resolveDeeds_heir
  constructor
  · intro always
    have makes : heir.Makes [] (⟨1⟩, "b = \x7b\x7bconcept.name\x7d\x7d") ⟨2, 0⟩ ∧
        heir.Makes [(⟨1⟩, "b = \x7b\x7bconcept.name\x7d\x7d")] (⟨1⟩, "b = \x27x\x27") ⟨3, 0⟩ := by
      decide +kernel
    have rivals : heir.Rivals "b" [] (⟨1⟩, "b = \x7b\x7bconcept.name\x7d\x7d") []
        (⟨1⟩, "b = \x27x\x27") ⟨⟨0, 0⟩, ["b"]⟩ :=
      .of_outcomes (by decide +kernel) (by decide +kernel) (trees_resolve_heir "b") rfl makes
        ((List.Perm.of_eq outcomes).trans (.swap ..))
    refine not_secondCounts makes.2 (outcomes ▸ List.mem_cons_self) ?_
      (always _ heir "b" [] [] _ _ _ reachable_heir rivals (by decide))
    simp only [resolve, activateAll, Network.activate_eq, Network.settle_eq]
    decide +kernel
  · intro always
    have makes : heir.Makes [] (⟨1⟩, "symbol = \x27p\x27") ⟨2, 0⟩ ∧
        heir.Makes [(⟨1⟩, "symbol = \x27p\x27")] (⟨1⟩, "symbol = \x27q\x27") ⟨2, 1⟩ := by
      decide +kernel
    have rivals : heir.Rivals symbolSegment [] (⟨1⟩, "symbol = \x27p\x27") []
        (⟨1⟩, "symbol = \x27q\x27") ⟨⟨0, 0⟩, symbolPath⟩ :=
      .of_outcomes (by decide +kernel) (by decide +kernel) (trees_resolve_heir symbolSegment) rfl
        makes (.of_eq symbols)
    refine not_secondCounts makes.2
      (symbols ▸ List.mem_cons_of_mem _ List.mem_cons_self) ?_
      (always _ heir symbolSegment [] [] _ _ _ reachable_heir rivals rfl)
    simp only [resolve, activateAll, Network.activate_eq, Network.settle_eq]
    decide +kernel

end ConceptLaws.Session
