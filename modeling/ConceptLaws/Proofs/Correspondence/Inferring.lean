import ConceptLaws.Proofs.Correspondence.Formulas
import ConceptLaws.Proofs.Relation.Forest

/-! Formulas of a pass.
A pass tells every formula that it adds to a correspondence, and takes none away. The identifiers
that are given out come after those that are in use, so that a new correspondence never takes the
place of another one, as long as they do not come around. -/

namespace ConceptLaws

open PassEvent

namespace Correspondence

variable {map : Correspondence} {relation : Relation} {catalog : Catalog}

theorem Seated.extend (seated : map.Seated relation) {later : Relation}
    (wider : ∀ id, relation.contains id = true → later.contains id = true) : map.Seated later :=
  { seated with present := fun entity member => wider entity (seated.present entity member) }

/-- Before there are formulas it is enough that what is mapped is there. -/
theorem seated_of_mapped (paired : map.Paired) (blank : map.formulas = ∅)
    (present : ∀ (node : LawNodeId) (entity : EntityId), map.entityOf[node]? = some entity →
      relation.contains entity = true) : map.Seated relation := by
  refine ⟨paired, fun entity member => ?_, fun node formula held => ?_, fun node formula held => ?_⟩
  · obtain ⟨node, held⟩ :=
      Option.isSome_iff_exists.1 (Std.ExtTreeMap.mem_iff_isSome_getElem?.1 member)
    exact present node entity ((paired entity node).1 held)
  · simp [blank] at held
  · simp [blank] at held

theorem seated_ofPlan {law : LawId} {pair : Pair} {plan : PairPlan}
    (planned : (empty law).plan? relation catalog pair = some plan) :
    (ofPlan law pair.node plan).Seated relation := by
  obtain ⟨-, -, backed⟩ := widens_plan planned
  refine seated_of_mapped (sound_ofPlan planned).paired (formulas_foldl_record plan (empty law))
    fun node entity held => ?_
  have recorded : (plan.foldl record (empty law)).entityOf[node]? = some entity := held
  have listed := (mapped_foldl_record recorded).resolve_left (by simp [empty])
  obtain ⟨-, place, _, _, found, -⟩ := backed _ listed
  exact Relation.contains_iff.2 ⟨place, found⟩

theorem formulas_union {matcher : Matcher} {left right merged : Correspondence} {fills : Bool}
    (unites : matcher.Unites catalog left right merged fills) : merged.formulas = ∅ := by
  obtain ⟨base, recorded, rfl⟩ := unites.recorded
  exact formulas_recordAll recorded

theorem seated_union {matcher : Matcher} {left right merged : Correspondence} {fills : Bool}
    (seatedLeft : left.Seated relation) (seatedRight : right.Seated relation)
    (unites : matcher.Unites catalog left right merged fills) : merged.Seated relation := by
  refine seated_of_mapped unites.paired_merged (formulas_union unites) fun node entity held => ?_
  have there {part : Correspondence} (seated : part.Seated relation)
      (listed : ⟨entity, node⟩ ∈ part.predicatePairs catalog) :
      relation.contains entity = true := by
    have mapped := mem_pairs.1 (List.mem_filter.1 listed).1
    exact seated.present entity (seated.mem_nodeOf ((seated.paired entity node).1 mapped))
  rcases List.mem_append.1 (mapped_union unites held) with inLeft | inRight
  · exact there seatedLeft inLeft
  · exact there seatedRight inRight

end Correspondence

namespace Matcher

/-- The formula that a correspondence has at a node. -/
def formula? (matcher : Matcher) (map : MapId) (node : LawNodeId) : Option Formula :=
  matcher.get? map >>= fun map => map.formulas[node]?

theorem formula?_eq_some {matcher : Matcher} {id : MapId} {node : LawNodeId} {formula : Formula} :
    matcher.formula? id node = some formula ↔
      ∃ map, matcher.get? id = some map ∧ map.formulas[node]? = some formula :=
  Option.bind_eq_some_iff

/-- Correspondences are kept under their identifiers, and are seated. -/
structure Housed (matcher : Matcher) (relation : Relation) : Prop where
  named : ∀ id map, matcher.get? id = some map → map.id = id
  maps : ∀ id map, matcher.get? id = some map → map.Seated relation

variable {matcher later : Matcher} {relation : Relation}

theorem housed_of_isEmpty (empty : matcher.maps = ∅) : matcher.Housed relation := by
  have nothing : ∀ id, matcher.get? id = none := by
    intro id
    unfold get?
    rw [empty]
    exact Std.ExtTreeMap.getElem?_empty
  exact ⟨by simp [nothing], by simp [nothing]⟩

theorem Housed.of_maps (housed : matcher.Housed relation) (maps : later.maps = matcher.maps) :
    later.Housed relation := by
  have same (id : MapId) : later.get? id = matcher.get? id := by
    unfold get?
    rw [maps]
  exact ⟨fun id map found => housed.named id map ((same id).symm.trans found),
    fun id map found => housed.maps id map ((same id).symm.trans found)⟩

theorem Housed.extend (housed : matcher.Housed relation) {after : Relation}
    (wider : ∀ id, relation.contains id = true → after.contains id = true) :
    matcher.Housed after :=
  ⟨housed.named, fun id map found => (housed.maps id map found).extend wider⟩

/-- A correspondence is changed that stays seated. -/
theorem Housed.update (housed : matcher.Housed relation) (id : MapId)
    {change : Correspondence → Correspondence}
    (same : ∀ map : Correspondence, (change map).id = map.id)
    (stays : ∀ map, matcher.get? id = some map → (change map).Seated relation) :
    (matcher.update id change).Housed relation := by
  refine ⟨fun query after found => ?_, fun query after found => ?_⟩
  all_goals
    rw [get?_update] at found
    split at found
  · obtain ⟨map, before, rfl⟩ := Option.map_eq_some_iff.1 found
    exact (same map).trans (housed.named query map before)
  · exact housed.named query after found
  · rename_i here
    obtain ⟨map, before, rfl⟩ := Option.map_eq_some_iff.1 found
    exact stays map (here ▸ before)
  · exact housed.maps query after found

/-- A new correspondence takes the place of any that bore its identifier. -/
theorem Housed.allocate (housed : matcher.Housed relation) {map : Correspondence}
    (new : map.Seated relation) : (matcher.allocate map).2.Housed relation := by
  refine ⟨fun query after found => ?_, fun query after found => ?_⟩
  all_goals
    rw [get?_allocate] at found
    split at found
  · rename_i same
    obtain rfl := Option.some.inj found
    exact same.symm
  · exact housed.named query after found
  · obtain rfl := Option.some.inj found
    exact ⟨new.paired, new.present, new.owned, new.satisfied⟩
  · exact housed.maps query after found

theorem Housed.allocateUnion (housed : matcher.Housed relation) (left right : Correspondence)
    {merged : Correspondence} (new : merged.Seated relation) :
    (matcher.allocateUnion left right merged).2.Housed relation := by
  have allocated := housed.allocate new
  unfold Matcher.allocateUnion
  refine allocated.update _ (fun _ => rfl) fun map held => ?_
  have here := allocated.maps _ map held
  exact ⟨here.paired, here.present, here.owned, here.satisfied⟩

/-- Correspondences are kept under their identifiers, which were given out, and are seated. -/
structure Seated (matcher : Matcher) (relation : Relation) : Prop where
  named : ∀ id map, matcher.get? id = some map → map.id = id
  issued : ∀ id map, matcher.get? id = some map → id.toNat < matcher.nextMap.toNat
  maps : ∀ id map, matcher.get? id = some map → map.Seated relation

theorem Seated.housed (seated : matcher.Seated relation) : matcher.Housed relation :=
  ⟨seated.named, seated.maps⟩

theorem seated_of_isEmpty (empty : matcher.maps = ∅) : matcher.Seated relation := by
  have housed : matcher.Housed relation := housed_of_isEmpty empty
  refine ⟨housed.named, fun id map found => ?_, housed.maps⟩
  unfold get? at found
  simp [empty] at found

theorem Seated.of_maps (seated : matcher.Seated relation) (maps : later.maps = matcher.maps)
    (next : later.nextMap = matcher.nextMap) : later.Seated relation := by
  have housed := seated.housed.of_maps maps
  refine ⟨housed.named, fun id map found => ?_, housed.maps⟩
  unfold get? at found
  rw [maps] at found
  rw [next]
  exact seated.issued id map found

theorem Seated.extend (seated : matcher.Seated relation) {after : Relation}
    (wider : ∀ id, relation.contains id = true → after.contains id = true) :
    matcher.Seated after :=
  { seated with maps := (seated.housed.extend wider).maps }

/-- A correspondence is changed that stays seated. -/
theorem Seated.update (seated : matcher.Seated relation) (id : MapId)
    {change : Correspondence → Correspondence}
    (same : ∀ map : Correspondence, (change map).id = map.id)
    (stays : ∀ map, matcher.get? id = some map → (change map).Seated relation) :
    (matcher.update id change).Seated relation := by
  have housed := seated.housed.update id same stays
  refine ⟨housed.named, fun query after found => ?_, housed.maps⟩
  rw [get?_update] at found
  split at found
  · obtain ⟨map, before, -⟩ := Option.map_eq_some_iff.1 found
    exact seated.issued query map before
  · exact seated.issued query after found

/-- A change that leaves the formulas as they are. -/
theorem formula?_update {matcher : Matcher} {id : MapId} {change : Correspondence → Correspondence}
    (same : ∀ map : Correspondence, (change map).formulas = map.formulas) (query : MapId)
    (node : LawNodeId) : (matcher.update id change).formula? query node =
      matcher.formula? query node := by
  unfold formula?
  rw [get?_update]
  split
  · cases matcher.get? query with
    | none => rfl
    | some map => exact congrArg (·[node]?) (same map)
  · rfl

theorem Seated.fresh (seated : matcher.Seated relation) : matcher.get? matcher.nextMap = none := by
  cases found : matcher.get? matcher.nextMap with
  | none => rfl
  | some map => exact absurd (seated.issued _ map found) (Nat.lt_irrefl _)

/-- A correspondence without formulas is taken in under an identifier that is not in use. -/
theorem Seated.allocate (seated : matcher.Seated relation) {map : Correspondence}
    (new : map.Seated relation) (blank : map.formulas = ∅)
    (room : matcher.nextMap.toNat + 1 < UInt64.size) :
    (matcher.allocate map).2.Seated relation ∧ ∀ query node,
      (matcher.allocate map).2.formula? query node = matcher.formula? query node := by
  have next : (matcher.allocate map).2.nextMap.toNat = matcher.nextMap.toNat + 1 := toNat_next room
  have housed := seated.housed.allocate new
  refine ⟨⟨housed.named, fun query after found => ?_, housed.maps⟩, fun query node => ?_⟩
  · rw [get?_allocate] at found
    rw [next]
    split at found
    · rename_i same
      rw [same]
      exact Nat.lt_succ_self _
    · exact Nat.lt_succ_of_lt (seated.issued query after found)
  · unfold formula?
    rw [get?_allocate]
    split
    · rename_i same
      rw [same, seated.fresh]
      change map.formulas[node]? = none
      rw [blank]
      exact Std.ExtTreeMap.getElem?_empty
    · rfl

theorem Seated.allocateUnion (seated : matcher.Seated relation) (left right : Correspondence)
    {merged : Correspondence} (new : merged.Seated relation) (blank : merged.formulas = ∅)
    (room : matcher.nextMap.toNat + 1 < UInt64.size) :
    (matcher.allocateUnion left right merged).2.Seated relation ∧ ∀ query node,
      (matcher.allocateUnion left right merged).2.formula? query node =
        matcher.formula? query node := by
  obtain ⟨allocated, same⟩ := seated.allocate new blank room
  unfold Matcher.allocateUnion
  dsimp only
  refine ⟨allocated.update _ (fun _ => rfl) fun map held => ?_, fun query node => ?_⟩
  · have here := allocated.maps _ map held
    exact ⟨here.paired, here.present, here.owned, here.satisfied⟩
  · refine (formula?_update ?_ query node).trans (same query node)
    exact fun _ => rfl

end Matcher

namespace PassState

theorem madeBy_branchEvents (context : PassContext) (state : PassState) (id : MapId)
    (node : LawNodeId) : madeBy (state.branchEvents context id node) = [] := by
  unfold branchEvents
  split
  · rfl
  split
  · rfl
  split
  · rfl
  · exact madeBy_claims _ _

/-- The formulas are those of a matcher before, and those that were told. -/
structure Infers (before : Matcher) (state : PassState) : Prop where
  named : state.relation.Named
  seated : state.matcher.Seated state.relation
  told : ∀ id node formula, state.matcher.formula? id node = some formula ↔
    before.formula? id node = some formula ∨
      ⟨id, node, formula.owner, formula.source⟩ ∈ state.outcome.inferred

variable {before : Matcher} {context : PassContext} {state later : PassState}
  {events : List PassEvent}

/-- Nothing happens to the formulas. -/
theorem Infers.quiet (infers : state.Infers before) (relation : later.relation = state.relation)
    (inferred : later.outcome.inferred = state.outcome.inferred)
    (seated : later.matcher.Seated state.relation)
    (same : ∀ id node, later.matcher.formula? id node = state.matcher.formula? id node) :
    later.Infers before := by
  refine ⟨relation ▸ infers.named, relation ▸ seated, fun id node formula => ?_⟩
  rw [same, inferred]
  exact infers.told id node formula

theorem Infers.markSatisfied (infers : state.Infers before) (context : PassContext)
    (map : Correspondence) : (state.markSatisfied context map).Infers before := by
  unfold PassState.markSatisfied
  split
  · exact infers
  · refine infers.quiet rfl rfl (infers.seated.update map.id (fun _ => rfl) fun other held => ?_)
      (Matcher.formula?_update fun _ => rfl)
    have seated := infers.seated.maps map.id other held
    exact ⟨seated.paired, seated.present, seated.owned, fun _ _ _ => rfl⟩

/-- A branch adds the formulas that it tells. -/
theorem Infers.appendBranch (infers : state.Infers before) (valid : context.catalog.Valid)
    {id : MapId} (settled : state.Settles id) (node : LawNodeId) :
    (state.appendBranch context id node).2.Infers before := by
  unfold PassState.appendBranch
  cases found : state.matcher.get? id with
  | none => exact infers
  | some map =>
    dsimp only
    cases planned : map.planBranch? state.relation context.catalog node with
    | none => exact infers
    | some branch =>
      obtain ⟨root, plan⟩ := branch
      dsimp only
      unfold commit
      rw [found]
      dsimp only
      have wider := BranchProgress.extends_run context.catalog map plan.steps
        (.start state.relation)
      cases ran : (BranchProgress.start state.relation).run context.catalog map plan.steps with
      | mk succeeded progress =>
        rw [ran] at wider
        cases succeeded with
        | false => exact ⟨infers.named, infers.seated.extend fun _ there => there, infers.told⟩
        | true =>
          obtain rfl := infers.seated.named id map found
          have satisfied := settled map found rfl
          obtain ⟨seated, formulas⟩ :=
            (infers.seated.maps map.id map found).append valid infers.named satisfied planned ran
          have claims := Relation.extends_foldl_claim map
            (plan.steps.filterMap BranchStep.reused?) progress.relation
          have all := wider.trans claims
          refine ⟨all.named infers.named, ?_, fun query place formula => ?_⟩
          · refine (infers.seated.extend fun _ there => all.contains there).update map.id
              (fun before => (before.stays_adopt _ _).id) fun other held => ?_
            obtain rfl := Option.some.inj (found.symm.trans held)
            exact seated.extend fun _ there => claims.contains there
          · have here : (⟨query, place, formula.owner, formula.source⟩ : InferredFormula) ∈
                progress.formulas.map (fun entry =>
                  (⟨map.id, entry.1, entry.2.owner, entry.2.source⟩ : InferredFormula)) ↔
                query = map.id ∧ (place, formula) ∈ progress.formulas := by
              simp only [List.mem_map, Prod.exists, InferredFormula.mk.injEq]
              constructor
              · rintro ⟨place, ⟨owner, source⟩, listed, rfl, rfl, rfl, rfl⟩
                exact ⟨rfl, listed⟩
              · rintro ⟨rfl, listed⟩
                exact ⟨place, formula, listed, rfl, rfl, rfl, rfl⟩
            have told := infers.told query place formula
            rw [Matcher.formula?_eq_some] at told ⊢
            dsimp only [PassState.adopt]
            rw [List.mem_append, here, ← or_assoc, ← told, Matcher.get?_update]
            by_cases same : query = map.id
            · subst same
              rw [if_pos rfl, found]
              simpa using formulas place formula
            · simp [same]

/-- An act takes one identifier for a correspondence that it makes. -/
theorem Act.toNat_nextMap (act : Act context state events later)
    (room : state.matcher.nextMap.toNat + (madeBy events).length < UInt64.size) :
    later.matcher.nextMap.toNat = state.matcher.nextMap.toNat + (madeBy events).length := by
  cases act with
  | note tag entity => rfl
  | spend paid =>
    obtain ⟨-, rfl⟩ := Matcher.spend?_eq_some paid
    rfl
  | sow planned place unseeded => exact Matcher.toNat_next room
  | unite foundLeft foundRight united => exact Matcher.toNat_next room
  | satisfy found =>
    rw [nextMap_markSatisfied]
    rfl
  | branch id node settled =>
    rw [madeBy_branchEvents]
    obtain ⟨-, same | ⟨map, pairs, formulas, -, adopted⟩⟩ :=
      state.appendBranch_cases context id node
    · rw [same]
      rfl
    · rw [adopted]
      rfl
  | conclude id conclusions => rfl

/-- By what an act does to correspondences: only a branch adds formulas. -/
theorem Infers.act (infers : state.Infers before) (valid : context.catalog.Valid)
    (act : Act context state events later)
    (room : state.matcher.nextMap.toNat + (madeBy events).length < UInt64.size) :
    later.Infers before := by
  cases act with
  | note tag entity => exact infers.quiet rfl rfl (infers.seated.of_maps rfl rfl) fun _ _ => rfl
  | spend paid =>
    obtain ⟨-, rfl⟩ := Matcher.spend?_eq_some paid
    exact infers.quiet rfl rfl (infers.seated.of_maps rfl rfl) fun _ _ => rfl
  | sow planned =>
    obtain ⟨seated, same⟩ := infers.seated.allocate (Correspondence.seated_ofPlan planned)
      (Correspondence.formulas_foldl_record _ _) room
    exact infers.quiet rfl rfl seated same
  | @unite _ _ left right merged fills foundLeft foundRight united =>
    have unites := Matcher.union?_eq_some.1 united
    obtain ⟨seated, same⟩ := infers.seated.allocateUnion left right
      (Correspondence.seated_union (infers.seated.maps _ left foundLeft)
        (infers.seated.maps _ right foundRight) unites)
      (Correspondence.formulas_union unites) room
    exact infers.quiet rfl rfl seated same
  | satisfy found => exact infers.markSatisfied context _
  | branch id node settled => exact infers.appendBranch valid settled node
  | conclude id conclusions =>
    refine infers.quiet rfl rfl (infers.seated.update id (fun _ => rfl) fun map held => ?_)
      (Matcher.formula?_update fun _ => rfl)
    have seated := infers.seated.maps id map held
    exact ⟨seated.paired, seated.present, seated.owned, seated.satisfied⟩

theorem Infers.acts (acts : Acts context state events later) (infers : state.Infers before)
    (valid : context.catalog.Valid)
    (room : state.matcher.nextMap.toNat + (madeBy events).length < UInt64.size) :
    later.Infers before ∧
      later.matcher.nextMap.toNat = state.matcher.nextMap.toNat + (madeBy events).length := by
  induction acts with
  | refl => exact ⟨infers, rfl⟩
  | step act _ ih =>
    rw [madeBy_append, List.length_append] at room ⊢
    have next := act.toNat_nextMap (by omega)
    obtain ⟨last, final⟩ := ih (infers.act valid act (by omega)) (by omega)
    exact ⟨last, by omega⟩

end PassState

/-- The formulas after a pass are those it starts with, and those that it tells. -/
theorem Matcher.Seated.evaluate {matcher : Matcher} {relation : Relation} {catalog : Catalog}
    {options : PassOptions} {dirty : Std.ExtTreeSet EntityId} {pass : PassState}
    (ran : matcher.evaluate relation catalog options dirty = pass)
    (seated : matcher.Seated relation) (named : relation.Named) (valid : catalog.Valid)
    (room : matcher.nextMap.toNat +
      (madeBy (matcher.evaluateEvents relation catalog options dirty)).length < UInt64.size) :
    pass.matcher.Seated pass.relation ∧
      pass.matcher.nextMap.toNat ≤ matcher.nextMap.toNat +
        (madeBy (matcher.evaluateEvents relation catalog options dirty)).length ∧
      ∀ id node formula, pass.matcher.formula? id node = some formula ↔
        (matcher.prepare options).formula? id node = some formula ∨
          ⟨id, node, formula.owner, formula.source⟩ ∈ pass.outcome.inferred := by
  subst ran
  have prepared : (matcher.prepare options).Seated relation := by
    unfold prepare
    split
    · exact seated_of_isEmpty rfl
    · exact seated.of_maps rfl rfl
  have lower : (matcher.prepare options).nextMap.toNat ≤ matcher.nextMap.toNat := by
    unfold prepare
    split
    · exact Nat.zero_le _
    · exact Nat.le_refl _
  have start : PassState.Infers (matcher.prepare options)
      ⟨matcher.prepare options, relation, .empty⟩ :=
    ⟨named, prepared, by simp [Outcome.empty]⟩
  obtain ⟨infers, next⟩ := start.acts (matcher.acts_passed relation catalog options dirty) valid
    (Nat.lt_of_le_of_lt (Nat.add_le_add_right lower _) room)
  refine ⟨infers.seated.extend fun id there => ?_, ?_, infers.told⟩
  · rw [relation_evaluate, Relation.contains_recomputeDeep]
    exact there
  · rw [matcher_evaluate, next]
    exact Nat.add_le_add_right lower _

/-! ## Without regard to identifiers that come around -/

namespace PassState

variable {context : PassContext} {state later : PassState} {events : List PassEvent}

/-- A branch that is applied leaves its correspondence seated. -/
theorem housed_appendBranch (housed : state.matcher.Housed state.relation)
    (entities : state.relation.Named) (valid : context.catalog.Valid) {id : MapId}
    (settled : state.Settles id) (node : LawNodeId) :
    (state.appendBranch context id node).2.matcher.Housed
      (state.appendBranch context id node).2.relation := by
  unfold PassState.appendBranch
  cases found : state.matcher.get? id with
  | none => exact housed
  | some map =>
    dsimp only
    cases planned : map.planBranch? state.relation context.catalog node with
    | none => exact housed
    | some branch =>
      obtain ⟨root, plan⟩ := branch
      dsimp only
      unfold commit
      rw [found]
      dsimp only
      have wider := BranchProgress.extends_run context.catalog map plan.steps
        (.start state.relation)
      cases ran : (BranchProgress.start state.relation).run context.catalog map plan.steps with
      | mk succeeded progress =>
        rw [ran] at wider
        cases succeeded with
        | false => exact housed.extend fun _ there => there
        | true =>
          obtain rfl := housed.named id map found
          obtain ⟨seated, -⟩ := (housed.maps map.id map found).append valid entities
            (settled map found rfl) planned ran
          have claims := Relation.extends_foldl_claim map
            (plan.steps.filterMap BranchStep.reused?) progress.relation
          refine (housed.extend fun _ there => (wider.trans claims).contains there).update map.id
            (fun before => (before.stays_adopt _ _).id) fun other held => ?_
          obtain rfl := Option.some.inj (found.symm.trans held)
          exact seated.extend fun _ there => claims.contains there

theorem Act.housed (act : Act context state events later) (valid : context.catalog.Valid)
    (housed : state.matcher.Housed state.relation) (entities : state.relation.Named) :
    later.matcher.Housed later.relation ∧ later.relation.Named := by
  cases act with
  | note tag entity => exact ⟨housed.of_maps rfl, entities⟩
  | spend paid =>
    obtain ⟨-, rfl⟩ := Matcher.spend?_eq_some paid
    exact ⟨housed.of_maps rfl, entities⟩
  | sow planned place unseeded =>
    exact ⟨housed.allocate (Correspondence.seated_ofPlan planned), entities⟩
  | @unite _ _ left right merged fills foundLeft foundRight united =>
    have unites := Matcher.union?_eq_some.1 united
    exact ⟨housed.allocateUnion left right (Correspondence.seated_union
      (housed.maps _ left foundLeft) (housed.maps _ right foundRight) unites), entities⟩
  | satisfy found =>
    unfold PassState.markSatisfied
    split
    · exact ⟨housed, entities⟩
    · refine ⟨housed.update _ (fun _ => rfl) fun other held => ?_, entities⟩
      have seated := housed.maps _ other held
      exact ⟨seated.paired, seated.present, seated.owned, fun _ _ _ => rfl⟩
  | branch id node settled =>
    exact ⟨housed_appendBranch housed entities valid settled node,
      (state.appendBranch_cases context id node).1.named entities⟩
  | conclude id conclusions =>
    refine ⟨housed.update id (fun _ => rfl) fun other held => ?_, entities⟩
    have seated := housed.maps _ other held
    exact ⟨seated.paired, seated.present, seated.owned, seated.satisfied⟩

theorem Acts.housed (acts : Acts context state events later) (valid : context.catalog.Valid)
    (housed : state.matcher.Housed state.relation) (entities : state.relation.Named) :
    later.matcher.Housed later.relation ∧ later.relation.Named := by
  induction acts with
  | refl => exact ⟨housed, entities⟩
  | step act _ ih =>
    obtain ⟨middle, named⟩ := act.housed valid housed entities
    exact ih middle named

end PassState

/-- However many correspondences there are, those after a pass are kept under their identifiers and
are seated. -/
theorem Matcher.Housed.evaluate {matcher : Matcher} {relation : Relation} {catalog : Catalog}
    (housed : matcher.Housed relation) (entities : relation.Named) (valid : catalog.Valid)
    (options : PassOptions) (dirty : Std.ExtTreeSet EntityId) :
    (matcher.evaluate relation catalog options dirty).matcher.Housed
        (matcher.evaluate relation catalog options dirty).relation ∧
      (matcher.evaluate relation catalog options dirty).relation.Named := by
  have prepared : (matcher.prepare options).Housed relation := by
    unfold prepare
    split
    · exact housed_of_isEmpty rfl
    · exact housed.of_maps rfl
  obtain ⟨passed, named⟩ := (matcher.acts_passed relation catalog options dirty).housed valid
    prepared entities
  rw [matcher_evaluate, relation_evaluate]
  exact ⟨passed.extend fun id there => (Relation.contains_recomputeDeep _ id).trans there,
    (Relation.extends_recomputeDeep _).named named⟩

end ConceptLaws
