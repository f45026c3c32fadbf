import ConceptLaws.Proofs.Correspondence.Inferring
import ConceptLaws.Proofs.Session.Suggestions

/-! Inferred commands.
The inferred commands are those that the formulas of the correspondences contribute. A pass adds
what it tells, and an edit takes the commands of the correspondences that it drops: as the owner of a
formula is mapped, a correspondence that is kept has no formula of an entity that is forgotten. -/

namespace ConceptLaws

open PassEvent

/-- The source of the formula is a command whose target has a key. -/
def Formula.Contributes (formula : Formula) (command : InferredCommand) : Prop :=
  ∃ template family others, Command.Template.parse formula.source = .ok template ∧
    template.target.key = family :: others ∧ command = ⟨formula.owner, formula.source, family⟩

theorem InferredFormula.command?_eq_some {formula : InferredFormula} {command : InferredCommand} :
    formula.command? = some command ↔
      Formula.Contributes ⟨formula.owner, formula.source⟩ command := by
  unfold command? Formula.Contributes
  cases parsed : Command.Template.parse formula.source with
  | error fault => simp
  | ok template =>
    cases key : template.target.key with
    | nil => simp [key]
    | cons family others => simp [key, eq_comm]

theorem Formula.Contributes.unique {formula : Formula} {command other : InferredCommand}
    (contributes : formula.Contributes command) (too : formula.Contributes other) :
    command = other := by
  have first : (InferredFormula.mk ⟨0⟩ ⟨0⟩ formula.owner formula.source).command? = some command :=
    InferredFormula.command?_eq_some.2 contributes
  have second : (InferredFormula.mk ⟨0⟩ ⟨0⟩ formula.owner formula.source).command? = some other :=
    InferredFormula.command?_eq_some.2 too
  exact Option.some.inj (first.symm.trans second)

namespace Matcher

variable {matcher later : Matcher} {relation : Relation}

/-- Correspondences that are forgotten take their formulas with them. -/
theorem formula?_forgetEntity (named : ∀ id map, matcher.get? id = some map → map.id = id)
    (entity : EntityId) (id : MapId) (node : LawNodeId) :
    (matcher.forgetEntity entity).formula? id node =
      if ((matcher.forgetEntity entity).get? id).isSome then matcher.formula? id node
      else none := by
  unfold formula?
  rw [get?_forgetEntity named]
  cases found : matcher.get? id with
  | none => rfl
  | some map =>
    cases occurs : map.nodeOf.contains entity with
    | true => simp [Option.filter_some, occurs]
    | false => simp [Option.filter_some, occurs]

theorem Seated.get?_of_forgetEntity (seated : matcher.Seated relation) {entity : EntityId}
    {id : MapId} {map : Correspondence}
    (found : (matcher.forgetEntity entity).get? id = some map) :
    matcher.get? id = some map ∧ entity ∉ map.nodeOf := by
  rw [get?_forgetEntity seated.named] at found
  obtain ⟨before, avoids⟩ := Option.filter_eq_some_iff.1 found
  refine ⟨before, fun member => ?_⟩
  simp [Std.ExtTreeMap.mem_iff_contains.1 member] at avoids

/-- The entity that is forgotten may be gone. -/
theorem Seated.forgetEntity (seated : matcher.Seated relation) {entity : EntityId}
    {after : Relation} (wider : ∀ id, id ≠ entity → relation.contains id = true →
      after.contains id = true) : (matcher.forgetEntity entity).Seated after := by
  refine ⟨fun id map found => seated.named id map (seated.get?_of_forgetEntity found).1,
    fun id map found => ?_, fun id map found => ?_⟩
  · rw [nextMap_forgetEntity]
    exact seated.issued id map (seated.get?_of_forgetEntity found).1
  · obtain ⟨before, avoids⟩ := seated.get?_of_forgetEntity found
    have here := seated.maps id map before
    refine ⟨here.paired, fun other member => ?_, here.owned, here.satisfied⟩
    exact wider other (fun same => avoids (same ▸ member)) (here.present other member)

end Matcher

namespace Session

/-- The inferred commands are those that the formulas of a matcher contribute. -/
def Lists (session : Session) (matcher : Matcher) : Prop :=
  ∀ (place : FormulaPlace) (command : InferredCommand), session.inferred[place]? = some command ↔
    ∃ formula, matcher.formula? place.map place.node = some formula ∧ formula.Contributes command

/-- The catalog passed its checks, the correspondences are seated, and the inferred commands are
those of their formulas. -/
structure Seated (session : Session) : Prop where
  valid : session.catalog.Valid
  named : session.relation.Named
  matcher : session.matcher.Seated session.relation
  inferred : session.Lists session.matcher

/-- Correspondences that are still there have the formulas that they had. -/
def Carries (session later : Session) : Prop :=
  ∀ id node formula, session.matcher.formula? id node = some formula →
    (later.matcher.get? id).isSome → later.matcher.formula? id node = some formula

variable {session later : Session} {events : List PassEvent}

theorem carries_of_fewer (fewer : ∀ id map, later.matcher.get? id = some map →
    session.matcher.get? id = some map) : session.Carries later := by
  intro id node formula held there
  obtain ⟨map, found, owns⟩ := Matcher.formula?_eq_some.1 held
  obtain ⟨after, kept⟩ := Option.isSome_iff_exists.1 there
  obtain rfl := Option.some.inj (found.symm.trans (fewer id after kept))
  exact Matcher.formula?_eq_some.2 ⟨map, kept, owns⟩

theorem carries_of_matcher (same : later.matcher = session.matcher) : session.Carries later :=
  carries_of_fewer fun _ _ found => same ▸ found

theorem Carries.rest {middle : Session} (carries : session.Carries middle)
    (rests : middle.Rests later) : session.Carries later := by
  unfold Carries
  rw [rests.matcher]
  exact carries

/-- A command stays where its correspondence stays. -/
theorem Seated.keeps_command (seated : session.Seated) (after : later.Seated)
    (carries : session.Carries later) {place : FormulaPlace} {command : InferredCommand}
    (inferred : session.inferred[place]? = some command)
    (there : (later.matcher.get? place.map).isSome) : later.inferred[place]? = some command := by
  obtain ⟨formula, held, contributes⟩ := (seated.inferred place command).1 inferred
  exact (after.inferred place command).2
    ⟨formula, carries place.map place.node formula held there, contributes⟩

theorem Seated.rest (seated : session.Seated) (rests : session.Rests later) : later.Seated := by
  refine ⟨?_, ?_, ?_, ?_⟩
  · rw [rests.catalog]
    exact seated.valid
  · rw [rests.relation]
    exact seated.named
  · rw [rests.matcher, rests.relation]
    exact seated.matcher
  · unfold Lists
    rw [rests.matcher, rests.inferred]
    exact seated.inferred

theorem seated_ofRecords {catalog : Catalog} {settings : Settings} {records : List EntityRecord}
    (valid : catalog.Valid) (made : Session.ofRecords catalog settings records = .ok session) :
    session.Seated := by
  obtain ⟨relation, built, rfl⟩ := ofRecords_eq_ok made
  refine ⟨valid, Relation.named_ofRecords built, Matcher.seated_of_isEmpty rfl,
    fun place command => ?_⟩
  have nothing : (Matcher.empty settings.maxMapChecks).formula? place.map place.node = none := rfl
  simp [ofRelation, nothing]

/-! ## Edits -/

/-- An entity is forgotten that is edited or gone in the relation. -/
theorem Seated.forget (seated : session.Seated) {relation : Relation} (id : EntityId)
    (named : relation.Named) (wider : ∀ other, other ≠ id →
      session.relation.contains other = true → relation.contains other = true) :
    ({ session with relation }.forget id).Seated := by
  refine ⟨seated.valid, named, seated.matcher.forgetEntity wider, fun place command => ?_⟩
  have formulas := Matcher.formula?_forgetEntity seated.matcher.named id place.map place.node
  change (session.inferred.filter fun place command => command.owner != id &&
    ((session.matcher.forgetEntity id).get? place.map).isSome)[place]? = _ ↔
      ∃ formula, (session.matcher.forgetEntity id).formula? place.map place.node = _ ∧ _
  rw [Std.ExtTreeMap.getElem?_filter', Option.filter_eq_some_iff, seated.inferred, formulas]
  cases kept : (session.matcher.forgetEntity id).get? place.map with
  | none => simp
  | some map =>
    simp only [Option.isSome_some, Bool.and_true, if_true, bne_iff_ne, and_iff_left_iff_imp]
    rintro ⟨formula, held, template, family, others, -, -, rfl⟩ rfl
    -- the owner is mapped, and what is kept does not map the forgotten entity
    obtain ⟨before, avoids⟩ := seated.matcher.get?_of_forgetEntity kept
    obtain ⟨same, found, owns⟩ := Matcher.formula?_eq_some.1 held
    obtain rfl := Option.some.inj (before.symm.trans found)
    exact avoids ((seated.matcher.maps place.map map found).owned place.node formula owns)

theorem Seated.forgotten (seated : session.Seated) {id : EntityId} {map : MapId}
    {kept : Correspondence} (found : (session.forget id).matcher.get? map = some kept) :
    session.matcher.get? map = some kept :=
  (seated.matcher.get?_of_forgetEntity found).1

theorem Seated.touch (seated : session.Seated) {relation : Relation} (id : EntityId)
    (named : relation.Named) (wider : ∀ other, other ≠ id →
      session.relation.contains other = true → relation.contains other = true) :
    ({ session with relation }.touch id).Seated ∧
      session.Carries ({ session with relation }.touch id) :=
  ⟨(seated.forget id named wider).rest (rests_flag _ _),
    carries_of_fewer fun _ _ => seated.forgotten⟩

theorem Seated.foldl_touch (seated : session.Seated) (ids : List EntityId) :
    (ids.foldl Session.touch session).Seated ∧ ∀ id map,
      (ids.foldl Session.touch session).matcher.get? id = some map →
        session.matcher.get? id = some map := by
  induction ids generalizing session with
  | nil => exact ⟨seated, fun _ _ found => found⟩
  | cons first rest ih =>
    obtain ⟨last, fewer⟩ := ih (seated.touch first seated.named fun _ _ there => there).1
    exact ⟨last, fun id map found => seated.forgotten (fewer id map found)⟩

theorem Seated.add (seated : session.Seated) {record : EntityRecord}
    (done : session.add record = .ok later) : later.Seated ∧ session.Carries later := by
  obtain ⟨relation, inserted, rfl⟩ := add_eq_ok done
  have wider := (Relation.extends_insert inserted).trans relation.extends_recomputeDeep
  exact ⟨⟨seated.valid, wider.named seated.named,
    seated.matcher.extend fun _ there => wider.contains there, seated.inferred⟩,
    carries_of_matcher rfl⟩

theorem Seated.setValue (seated : session.Seated) {id : EntityId} {value : Payload}
    (done : session.setValue id value = .ok later) : later.Seated ∧ session.Carries later := by
  obtain ⟨relation, edited, rfl⟩ := setValue_eq_ok done
  obtain rfl := Relation.setValue_eq_ok edited
  exact seated.touch id (seated.named.update id fun _ => rfl) fun other _ there =>
    (session.relation.contains_update id other _).trans there

theorem Seated.setConcept (seated : session.Seated) {id : EntityId} {concept : ConceptId}
    (done : session.setConcept id concept = .ok later) : later.Seated ∧ session.Carries later := by
  obtain ⟨relation, edited, rfl⟩ := setConcept_eq_ok done
  obtain rfl := Relation.setConcept_eq_ok edited
  exact seated.touch id (seated.named.update id fun _ => rfl) fun other _ there =>
    (session.relation.contains_update id other _).trans there

theorem Seated.setParents (seated : session.Seated) {id : EntityId}
    {head reference : Option EntityId} (done : session.setParents id head reference = .ok later) :
    later.Seated ∧ session.Carries later := by
  obtain ⟨relation, edited, rfl⟩ := setParents_eq_ok done
  obtain ⟨-, -, rfl⟩ := Relation.setParents_eq_ok edited
  have deep := Relation.extends_recomputeDeep (session.relation.update id fun entity =>
    { entity with head := head, reference := reference })
  exact seated.touch id (deep.named (seated.named.update id fun _ => rfl)) fun other _ there =>
    deep.contains ((session.relation.contains_update id other _).trans there)

theorem Seated.remove (seated : session.Seated) {id : EntityId} {removed : Entity}
    (done : session.remove id = .ok (removed, later)) : later.Seated ∧ session.Carries later := by
  obtain ⟨relation, touched, shrunk, rfl, rfl⟩ := remove_eq_ok done
  obtain ⟨-, left⟩ := Relation.remove_eq_ok shrunk
  have deep := relation.extends_recomputeDeep
  have forgotten : ({ session with relation := relation.recomputeDeep }.forget id).Seated := by
    refine seated.forget id (deep.named (seated.named.remove shrunk))
      fun other different there => ?_
    obtain ⟨entity, found⟩ := Relation.contains_iff.1 there
    refine deep.contains (Relation.contains_iff.2 ⟨entity.unlink id, ?_⟩)
    rw [left, if_neg different, found]
    rfl
  obtain ⟨last, fewer⟩ := forgotten.foldl_touch (session.dependents id)
  refine ⟨Seated.rest ?_ (rests_dropTrees _ id), carries_of_fewer fun map kept found => ?_⟩
  · exact last.rest ⟨rfl, rfl, rfl, rfl, rfl⟩
  · rw [(rests_dropTrees _ id).matcher] at found
    exact seated.forgotten (fewer map kept found)

theorem Seated.accept (seated : session.Seated) {map : MapId}
    (done : session.accept map = .ok later) : later.Seated ∧ session.Carries later := by
  obtain ⟨matcher, relation, accepted, rfl⟩ := accept_eq_ok done
  obtain ⟨wider, changed⟩ := Matcher.extends_of_setTentative accepted
  have same : ∀ id node, matcher.formula? id node = session.matcher.formula? id node := by
    subst changed
    exact Matcher.formula?_update fun _ => rfl
  have there : matcher.Seated relation := by
    subst changed
    refine (seated.matcher.extend fun _ there => wider.contains there).update map (fun _ => rfl)
      fun other held => ?_
    have here := (seated.matcher.maps map other held).extend fun _ there => wider.contains there
    exact ⟨here.paired, here.present, here.owned, here.satisfied⟩
  have settled : { session with matcher, relation }.Seated :=
    ⟨seated.valid, wider.named seated.named, there, fun place command => by
      rw [same]
      exact seated.inferred place command⟩
  have rests := (rests_flag { session with matcher, relation }
    ({ session with matcher, relation }.claimed map)).trans
      (rests_resolve _ Propagation.symbolSegment)
  refine ⟨settled.rest rests, fun id node formula held _ => ?_⟩
  refine (congrArg (·.formula? id node) rests.matcher).trans ?_
  exact (same id node).trans held

/-! ## Catalogs and passes -/

theorem Seated.setCatalog (seated : session.Seated) {catalog : Catalog} (valid : catalog.Valid)
    (done : session.setCatalog catalog = .ok later) : later.Seated ∧
      (catalog.fingerprint = session.catalog.fingerprint → session.Carries later) := by
  obtain ⟨-, rfl⟩ | ⟨different, rfl⟩ := setCatalog_eq_ok done
  · exact ⟨⟨valid, seated.named, seated.matcher, seated.inferred⟩, fun _ => carries_of_matcher rfl⟩
  · refine ⟨⟨valid, seated.named, Matcher.seated_of_isEmpty rfl, fun place command => ?_⟩,
      fun same => (different same).elim⟩
    have nothing : session.matcher.reset.formula? place.map place.node = none := rfl
    simp [flag, clearTrees, nothing]

/-- The command of a formula at a place. -/
def commandAt? (place : FormulaPlace) (formula : InferredFormula) : Option InferredCommand :=
  if ⟨formula.map, formula.node⟩ = place then formula.command? else none

theorem commandAt?_eq_some {place : FormulaPlace} {formula : InferredFormula}
    {command : InferredCommand} : commandAt? place formula = some command ↔
      ⟨formula.map, formula.node⟩ = place ∧ formula.command? = some command := by
  unfold commandAt?
  split
  · simp_all
  · simp_all

/-- The first command at a place counts. -/
theorem inferred_foldl_infer (formulas : List InferredFormula) (session : Session)
    (place : FormulaPlace) : (formulas.foldl infer session).inferred[place]? =
      session.inferred[place]?.or (formulas.findSome? (commandAt? place)) := by
  have once (session : Session) (formula : InferredFormula) :
      (session.infer formula).inferred[place]? =
        session.inferred[place]?.or (commandAt? place formula) := by
    unfold infer commandAt?
    cases formula.command? with
    | none => simp
    | some command =>
      simp only [Std.ExtTreeMap.getElem?_insertIfNew, Std.compare_eq_iff_eq]
      by_cases here : (⟨formula.map, formula.node⟩ : FormulaPlace) = place
      · subst here
        cases held : session.inferred[(⟨formula.map, formula.node⟩ : FormulaPlace)]? with
        | none => simp [Std.ExtTreeMap.mem_iff_isSome_getElem?, held]
        | some other => simp [Std.ExtTreeMap.mem_iff_isSome_getElem?, held]
      · simp [here]
  induction formulas generalizing session with
  | nil => simp
  | cons first rest ih =>
    rw [List.foldl_cons, ih, once, Option.or_assoc, List.findSome?_cons]
    cases commandAt? place first with
    | none => simp
    | some command => simp

/-- Telling the formulas of a matcher that are new makes the commands those of the matcher. -/
theorem Lists.foldl_infer {before after : Matcher} {formulas : List InferredFormula}
    (lists : session.Lists before)
    (told : ∀ id node formula, after.formula? id node = some formula ↔
      before.formula? id node = some formula ∨
        ⟨id, node, formula.owner, formula.source⟩ ∈ formulas) :
    (formulas.foldl infer session).Lists after := by
  intro place command
  have sound (command : InferredCommand)
      (found : (formulas.foldl infer session).inferred[place]? = some command) :
      ∃ formula, after.formula? place.map place.node = some formula ∧
        formula.Contributes command := by
    rw [inferred_foldl_infer, Option.or_eq_some_iff] at found
    rcases found with old | ⟨-, new⟩
    · obtain ⟨formula, held, contributes⟩ := (lists place command).1 old
      exact ⟨formula, (told _ _ _).2 (Or.inl held), contributes⟩
    · obtain ⟨formula, listed, contributed⟩ := List.exists_of_findSome?_eq_some new
      obtain ⟨rfl, contributes⟩ := commandAt?_eq_some.1 contributed
      exact ⟨⟨formula.owner, formula.source⟩, (told _ _ _).2 (Or.inr listed),
        InferredFormula.command?_eq_some.1 contributes⟩
  refine ⟨sound command, ?_⟩
  rintro ⟨formula, held, contributes⟩
  -- something is inferred at the place, and the formula contributes no other command
  have inferred : (formulas.foldl infer session).inferred[place]? ≠ none := by
    rw [inferred_foldl_infer, Ne, Option.or_eq_none_iff, not_and]
    intro nothing new
    rcases (told _ _ _).1 held with old | listed
    · rw [(lists place command).2 ⟨formula, old, contributes⟩] at nothing
      cases nothing
    · have heard : commandAt? place ⟨place.map, place.node, formula.owner, formula.source⟩ =
          some command :=
        commandAt?_eq_some.2 ⟨rfl, InferredFormula.command?_eq_some.2 contributes⟩
      rw [List.findSome?_eq_none_iff.1 new _ listed] at heard
      cases heard
  obtain ⟨other, found⟩ := Option.ne_none_iff_exists'.1 inferred
  obtain ⟨formulaToo, heldToo, contributesToo⟩ := sound other found
  obtain rfl := Option.some.inj (held.symm.trans heldToo)
  rw [contributes.unique contributesToo]
  exact found

/-- A pass infers the commands of the formulas that it tells. -/
theorem Seated.evaluate (seated : session.Seated) {options : PassOptions}
    (room : session.matcher.nextMap.toNat + (madeBy (session.evaluateEvents options)).length <
      UInt64.size) :
    (session.evaluate options).2.Seated ∧
      (session.evaluate options).2.matcher.nextMap.toNat ≤ session.matcher.nextMap.toNat +
        (madeBy (session.evaluateEvents options)).length ∧
      (options.reset = false → session.Carries (session.evaluate options).2) := by
  cases ran : session.matcher.evaluate session.relation session.catalog options
    session.flagChanged.dirty with
  | mk matcher relation outcome =>
    obtain ⟨there, next, told⟩ := seated.matcher.evaluate ran seated.named seated.valid room
    have wider := session.matcher.extends_evaluate session.relation session.catalog options
      session.flagChanged.dirty
    rw [ran] at wider
    let passed : Session := { session.flagChanged with
      matcher := matcher
      relation := relation
      inferred := if options.reset then ∅ else session.inferred
      dirty := ∅ }
    have same : (session.evaluate options).2 = outcome.inferred.foldl infer passed := by
      have flagged : session.flagChanged.matcher.evaluate session.flagChanged.relation
          session.flagChanged.catalog options session.flagChanged.dirty =
            ⟨matcher, relation, outcome⟩ := ran
      unfold Session.evaluate
      dsimp only
      rw [flagged]
      rfl
    have start : passed.Lists (session.matcher.prepare options) := by
      intro place command
      unfold Matcher.prepare
      cases reset : options.reset with
      | true => simp [passed, reset, Matcher.formula?, Matcher.get?, Matcher.reset]
      | false =>
        simpa [passed, reset, Matcher.formula?, Matcher.get?] using seated.inferred place command
    have lists := start.foldl_infer told
    obtain ⟨inferred, rested⟩ := foldl_infer outcome.inferred passed
    rw [rested] at lists same
    rw [same]
    refine ⟨⟨seated.valid, wider.named seated.named, there, lists⟩, next,
      fun steady id node formula held _ => (told id node formula).2 (Or.inl ?_)⟩
    unfold Matcher.prepare
    rw [steady]
    exact held

/-! ## Whatever is done -/

/-- A new catalog passed its checks. -/
def Operation.Admissible : Operation → Prop
  | .setCatalog catalog => catalog.Valid
  | _ => True

theorem Seated.orKeep (seated : session.Seated) {outcome : Except SessionFault Session}
    (done : ∀ later, outcome = .ok later → later.Seated ∧ session.Carries later) :
    (session.orKeep outcome).Seated ∧ session.Carries (session.orKeep outcome) := by
  cases outcome with
  | error fault => exact ⟨seated, carries_of_matcher rfl⟩
  | ok later => exact done later rfl

/-- An operation that runs no pass. -/
theorem Seated.perform (seated : session.Seated) {operation : Operation}
    (admissible : operation.Admissible) (noPass : operation.options? = none) :
    (session.perform operation).Seated ∧
      (operation.Steady session → session.Carries (session.perform operation)) := by
  have kept {outcome : Session} (both : outcome.Seated ∧ session.Carries outcome) :
      outcome.Seated ∧ (operation.Steady session → session.Carries outcome) :=
    ⟨both.1, fun _ => both.2⟩
  cases operation with
  | add record => exact kept (seated.orKeep fun _ done => seated.add done)
  | remove id =>
    refine kept (seated.orKeep fun later done => ?_)
    cases removed : session.remove id with
    | error fault => simp [removed, Except.map] at done
    | ok outcome =>
      rw [removed] at done
      obtain rfl := Except.ok.inj done
      exact seated.remove removed
  | setValue id value => exact kept (seated.orKeep fun _ done => seated.setValue done)
  | setConcept id concept => exact kept (seated.orKeep fun _ done => seated.setConcept done)
  | setParents id head reference =>
    exact kept (seated.orKeep fun _ done => seated.setParents done)
  | setField id path value =>
    refine kept (seated.orKeep fun later done => ?_)
    cases edited : session.setField id path value with
    | error fault => simp [edited, Except.map] at done
    | ok outcome =>
      rw [edited] at done
      obtain rfl := Except.ok.inj done
      have rests := rests_setField edited
      exact ⟨seated.rest rests, carries_of_matcher rests.matcher⟩
  | setCatalog catalog =>
    change (session.orKeep (session.setCatalog catalog)).Seated ∧
      (_ → session.Carries (session.orKeep (session.setCatalog catalog)))
    cases done : session.setCatalog catalog with
    | error fault => exact ⟨seated, fun _ => carries_of_matcher rfl⟩
    | ok later => exact seated.setCatalog admissible done
  | evaluate options => cases noPass
  | suggest => cases noPass
  | accept map => exact kept (seated.orKeep fun _ done => seated.accept done)
  | resolve name =>
    have rests := session.rests_resolve name
    exact ⟨seated.rest rests, fun _ => carries_of_matcher rests.matcher⟩

/-- The identifiers in use come after no more correspondences than were made. -/
def Within (session : Session) (events : List PassEvent) : Prop :=
  session.matcher.nextMap.toNat ≤ (madeBy events).length

theorem length_madeBy_tell (session : Session) (events : List PassEvent) (operation : Operation) :
    (madeBy events).length ≤ (madeBy (session.tell events operation)).length := by
  cases pass : operation.options? with
  | none => exact (congrArg List.length (session.madeBy_tell events pass)).ge
  | some options =>
    cases operation with
    | evaluate options => simp [Session.tell, madeBy_append]
    | suggest => simp [Session.tell, madeBy_append]
    | _ => cases pass

theorem length_madeBy_record (operations : List Operation) :
    ∀ (events : List PassEvent) (session : Session),
      (madeBy events).length ≤ (madeBy (record (events, session) operations).1).length := by
  induction operations with
  | nil => exact fun _ _ => Nat.le_refl _
  | cons first rest ih =>
    exact fun events session => (session.length_madeBy_tell events first).trans (ih _ _)

/-- What was made with other content is dropped, and then the identifiers start again. -/
theorem nextMap_perform_le {operation : Operation} (noPass : operation.options? = none) :
    (session.perform operation).matcher.nextMap.toNat ≤ session.matcher.nextMap.toNat := by
  by_cases steady : operation.Steady session
  · exact (congrArg Identifier.toNat (nextMap_perform steady noPass)).le
  cases operation with
  | setCatalog catalog =>
    change (session.orKeep (session.setCatalog catalog)).matcher.nextMap.toNat ≤ _
    cases done : session.setCatalog catalog with
    | error fault => exact Nat.le_refl _
    | ok later =>
      obtain ⟨same, -⟩ | ⟨-, rfl⟩ := setCatalog_eq_ok done
      · exact (steady same).elim
      · exact Nat.zero_le _
  | evaluate options => cases noPass
  | _ => exact (steady trivial).elim

/-- Any operation. -/
theorem Seated.tell (seated : session.Seated) (within : session.Within events)
    {operation : Operation} (admissible : operation.Admissible)
    (few : (madeBy (session.tell events operation)).length < UInt64.size) :
    (session.perform operation).Seated ∧
      (session.perform operation).Within (session.tell events operation) ∧
      (operation.Steady session → session.Carries (session.perform operation)) := by
  unfold Within at within ⊢
  have more := session.length_madeBy_tell events operation
  cases pass : operation.options? with
  | none =>
    obtain ⟨after, carries⟩ := seated.perform admissible pass
    exact ⟨after, ((nextMap_perform_le pass).trans within).trans more, carries⟩
  | some options =>
    cases operation with
    | evaluate options =>
      simp only [Session.tell, madeBy_append, List.length_append] at few ⊢
      have room : session.matcher.nextMap.toNat +
          (madeBy (session.evaluateEvents options)).length < UInt64.size := by omega
      obtain ⟨after, next, carries⟩ := seated.evaluate room
      exact ⟨after, next.trans (Nat.add_le_add_right within _), carries⟩
    | suggest =>
      simp only [Session.tell, madeBy_append, List.length_append] at few ⊢
      have room : session.matcher.nextMap.toNat +
          (madeBy (session.evaluateEvents .suggest)).length < UInt64.size := by omega
      obtain ⟨after, next, carries⟩ := seated.evaluate room
      have rests := (session.evaluate .suggest).2.rests_resolve Propagation.symbolSegment
      refine ⟨after.rest rests, ?_, fun _ => (carries rfl).rest rests⟩
      exact (congrArg (·.nextMap.toNat) rests.matcher).le.trans
        (next.trans (Nat.add_le_add_right within _))
    | _ => cases pass

/-- By induction on the operations. -/
theorem seated_record (operations : List Operation) (seated : session.Seated)
    (within : session.Within events) (admissible : ∀ operation ∈ operations, operation.Admissible)
    (few : (madeBy (record (events, session) operations).1).length < UInt64.size) :
    (record (events, session) operations).2.Seated ∧
      (record (events, session) operations).2.Within (record (events, session) operations).1 := by
  induction operations generalizing events session with
  | nil => exact ⟨seated, within⟩
  | cons first rest ih =>
    obtain ⟨admissibleFirst, admissible⟩ := List.forall_mem_cons.1 admissible
    have fewer := length_madeBy_record rest (session.tell events first) (session.perform first)
    obtain ⟨after, withinAfter, -⟩ :=
      seated.tell within admissibleFirst (Nat.lt_of_le_of_lt fewer few)
    exact ih after withinAfter admissible few

/-- Whatever is done with a session, the inferred commands are those of the formulas of satisfied
correspondences, each at its place, and they belong to entities that are there. An operation that
does not reset the matcher keeps a command as long as it keeps its correspondence. -/
theorem commands_of_formulas {catalog : Catalog} {settings : Settings}
    {records : List EntityRecord} {start : Session} (valid : catalog.Valid)
    (made : Session.ofRecords catalog settings records = .ok start) {operations : List Operation}
    (admissible : ∀ operation ∈ operations, operation.Admissible)
    (few : (madeBy (record ([], start) operations).1).length < UInt64.size) :
    (∀ (place : FormulaPlace) (command : InferredCommand),
      (record ([], start) operations).2.inferred[place]? = some command ↔
        ∃ map formula template family others,
          (record ([], start) operations).2.matcher.get? place.map = some map ∧
          map.satisfied = true ∧ map.formulas[place.node]? = some formula ∧
          Command.Template.parse formula.source = .ok template ∧
          template.target.key = family :: others ∧
          command = ⟨formula.owner, formula.source, family⟩) ∧
    (∀ (place : FormulaPlace) (command : InferredCommand),
      (record ([], start) operations).2.inferred[place]? = some command →
        (record ([], start) operations).2.relation.contains command.owner = true) ∧
    ∀ earlier operation, operations = earlier ++ [operation] →
      operation.Steady (record ([], start) earlier).2 →
        ∀ (place : FormulaPlace) (command : InferredCommand),
          (record ([], start) earlier).2.inferred[place]? = some command →
            ((record ([], start) operations).2.matcher.get? place.map).isSome →
              (record ([], start) operations).2.inferred[place]? = some command := by
  have begun := seated_ofRecords valid made
  have blank : start.Within [] := by
    obtain ⟨relation, -, rfl⟩ := ofRecords_eq_ok made
    exact Nat.le_refl 0
  obtain ⟨seated, -⟩ := seated_record operations begun blank admissible few
  refine ⟨fun place command => ?_, fun place command inferred => ?_, ?_⟩
  · rw [seated.inferred place command]
    constructor
    · rintro ⟨formula, held, template, family, others, parsed, key, same⟩
      obtain ⟨map, found, owns⟩ := Matcher.formula?_eq_some.1 held
      exact ⟨map, formula, template, family, others, found,
        (seated.matcher.maps place.map map found).satisfied place.node formula owns, owns, parsed,
        key, same⟩
    · rintro ⟨map, formula, template, family, others, found, -, owns, parsed, key, same⟩
      exact ⟨formula, Matcher.formula?_eq_some.2 ⟨map, found, owns⟩, template, family, others,
        parsed, key, same⟩
  · obtain ⟨formula, held, template, family, others, -, -, rfl⟩ :=
      (seated.inferred place command).1 inferred
    obtain ⟨map, found, owns⟩ := Matcher.formula?_eq_some.1 held
    have here := seated.matcher.maps place.map map found
    exact here.present formula.owner (here.owned place.node formula owns)
  · rintro earlier operation rfl steady place command inferred there
    have last : record ([], start) (earlier ++ [operation]) =
        ((record ([], start) earlier).2.tell (record ([], start) earlier).1 operation,
          (record ([], start) earlier).2.perform operation) := List.foldl_concat ..
    rw [last] at few seated there ⊢
    have fewer := (record ([], start) earlier).2.length_madeBy_tell
      (record ([], start) earlier).1 operation
    obtain ⟨before, within⟩ := seated_record earlier begun blank
      (fun other member => admissible other (List.mem_append_left _ member))
      (Nat.lt_of_le_of_lt fewer few)
    obtain ⟨-, -, carries⟩ := before.tell within
      (admissible operation (List.mem_append_right _ List.mem_cons_self)) few
    exact before.keeps_command seated (carries steady) inferred there

/-! ## A point with a size -/

/-- A point has a size. -/
def sized : Definition where
  concepts := [⟨⟨1⟩, "point", [], ∅, none, false⟩]
  laws := [⟨⟨100⟩, "size",
    [⟨⟨1⟩, ⟨1⟩, none, none, .empty, none, none⟩,
      ⟨⟨2⟩, ⟨1⟩, some ⟨1⟩, none, .empty, none, some "size = 1"⟩],
    [(∅ : Std.ExtTreeSet LawNodeId).insert ⟨1⟩], []⟩]

def sizedCatalog : Catalog where
  definition := sized
  lineages := (∅ : Std.ExtTreeMap ConceptId (List ConceptId)).insertMany
    [((⟨1⟩ : ConceptId), [(⟨1⟩ : ConceptId)])]
  fingerprint := Fingerprint.ofContent Fingerprint.catalogDomain sized.toCbor

theorem valid_sizedCatalog : sizedCatalog.Valid := by
  have concepts : sized.checkConcepts = .ok () := rfl
  have lineages : sized.lineages = .ok sizedCatalog.lineages := rfl
  have laws : sized.checkLaws [] [] sized.laws = .ok () := rfl
  refine ⟨sized, ?_⟩
  unfold Catalog.ofDefinition
  rw [concepts, lineages, laws]
  rfl

def onePoint : List EntityRecord := [⟨⟨1⟩, ⟨1⟩, none, none, .empty, none⟩]

def unsized : Session :=
  ofRelation sizedCatalog .standard
    ((Relation.ofRecords onePoint sizedCatalog).toOption.getD .empty)

theorem commands_of_formulas_sized : ∃ map formula,
    (record ([], unsized) [.evaluate .standard]).2.matcher.get? ⟨0⟩ = some map ∧
      map.satisfied = true ∧ map.formulas[(⟨2⟩ : LawNodeId)]? = some formula ∧
      formula.owner = ⟨1⟩ ∧ formula.source = "size = 1" := by
  have made : ofRecords sizedCatalog .standard onePoint = .ok unsized := rfl
  have few : (madeBy (record ([], unsized) [.evaluate .standard]).1).length < UInt64.size := by
    decide +kernel
  have inferred : (record ([], unsized) [.evaluate .standard]).2.inferred[
      (⟨⟨0⟩, ⟨2⟩⟩ : FormulaPlace)]? = some ⟨⟨1⟩, "size = 1", "size"⟩ := by decide +kernel
  have admissible : ∀ operation ∈ [Operation.evaluate .standard], operation.Admissible := by
    simp [Operation.Admissible]
  obtain ⟨commands, -⟩ := commands_of_formulas valid_sizedCatalog made admissible few
  obtain ⟨map, formula, _, _, _, found, satisfied, owns, -, -, same⟩ := (commands _ _).1 inferred
  obtain ⟨owner, source, -⟩ := InferredCommand.mk.inj same
  exact ⟨map, formula, found, satisfied, owns, owner.symm, source.symm⟩

end Session

end ConceptLaws
