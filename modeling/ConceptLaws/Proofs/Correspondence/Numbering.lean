import ConceptLaws.Proofs.Correspondence.Acts
import ConceptLaws.Proofs.Correspondence.Growth
import Mathlib.Data.List.FinRange
import Mathlib.Data.List.Perm.Subperm

/-! Identifiers of correspondences.
Identifiers are given out in their order and wrap around. Until all of them are given out, the next
one is free, and whatever a pass does leaves the correspondences that were satisfied before as
tentative as they were. -/

namespace ConceptLaws

namespace Matcher

/-- Every identifier is given out. -/
def Exhausted (matcher : Matcher) : Prop := ∀ id, ∃ map, matcher.get? id = some map

/-- So many correspondences are more than any memory holds. -/
theorem Exhausted.size_le {matcher : Matcher} (exhausted : matcher.Exhausted) :
    UInt64.size ≤ matcher.size := by
  have distinct : (List.ofFn fun number : Fin UInt64.size => (⟨.ofFin number⟩ : MapId)).Nodup :=
    List.nodup_ofFn.2 fun left right same =>
      congrArg UInt64.toFin (Identifier.mk.inj same)
  have among : (List.ofFn fun number : Fin UInt64.size => (⟨.ofFin number⟩ : MapId)) ⊆
      matcher.maps.keys := by
    intro id _
    obtain ⟨map, found⟩ := exhausted id
    rw [Std.ExtTreeMap.mem_keys, Std.ExtTreeMap.mem_iff_isSome_getElem?]
    exact Option.isSome_iff_exists.2 ⟨map, found⟩
  have fewer := (List.subperm_of_subset distinct among).length_le
  rwa [List.length_ofFn, Std.ExtTreeMap.length_keys] at fewer

/-- Correspondences are kept under the identifiers that they carry, and these are the ones given out
so far. -/
structure Numbered (matcher : Matcher) : Prop where
  named : ∀ id map, matcher.get? id = some map → map.id = id
  issued : matcher.Exhausted ∨
    ∀ id, (∃ map, matcher.get? id = some map) ↔ id.toNat < matcher.nextMap.toNat

/-- What one act may do with the correspondences: nothing, take one in, or revise one. -/
inductive Changes (matcher : Matcher) : Matcher → Prop
  | leave {later : Matcher} (maps : later.maps = matcher.maps)
      (next : later.nextMap = matcher.nextMap) : Changes matcher later
  | take {later : Matcher} {map : Correspondence} (takes : matcher.TakesIn later map) :
      Changes matcher later
  | revise (id : MapId) {change : Correspondence → Correspondence}
      (named : ∀ map : Correspondence, (change map).id = map.id)
      (steady : ∀ map, matcher.get? id = some map → map.satisfied = true →
        (change map).satisfied = true ∧ (change map).tentative = map.tentative) :
      Changes matcher (matcher.update id change)

/-- Satisfied correspondences stay, and are as tentative as they were. -/
def Retains (matcher later : Matcher) : Prop :=
  ∀ id map, matcher.get? id = some map → map.satisfied = true →
    ∃ after, later.get? id = some after ∧ after.satisfied = true ∧ after.tentative = map.tentative

variable {matcher later : Matcher}

theorem numbered_empty (maxChecks : Nat) : (empty maxChecks).Numbered := by
  have nothing (id : MapId) : (empty maxChecks).get? id = none := Std.ExtTreeMap.getElem?_empty
  refine ⟨fun id map found => by simp [nothing] at found, .inr fun id => ?_⟩
  rw [nothing]
  simp [empty, Identifier.toNat]

theorem get?_of_maps (same : later.maps = matcher.maps) (id : MapId) :
    later.get? id = matcher.get? id := by
  unfold get?
  rw [same]

/-- Correspondences are never dropped. -/
theorem Changes.there (changes : matcher.Changes later) {id : MapId}
    (there : ∃ map, matcher.get? id = some map) : ∃ map, later.get? id = some map := by
  obtain ⟨map, found⟩ := there
  cases changes with
  | leave maps next => exact ⟨map, (get?_of_maps maps id).trans found⟩
  | @take _ new takes =>
    rw [takes.found]
    split
    · exact ⟨new, rfl⟩
    · exact ⟨map, found⟩
  | @revise other change named steady =>
    rw [get?_update]
    split
    · exact ⟨change map, by rw [found]; rfl⟩
    · exact ⟨map, found⟩

theorem Changes.exhausted (changes : matcher.Changes later) (exhausted : matcher.Exhausted) :
    later.Exhausted := fun id => changes.there (exhausted id)

/-- Until all identifiers are given out, the next one is free. -/
theorem Numbered.fresh (numbered : matcher.Numbered) (free : ¬matcher.Exhausted) :
    matcher.get? matcher.nextMap = none := by
  have issued := numbered.issued.resolve_left free matcher.nextMap
  refine Option.eq_none_iff_forall_ne_some.2 fun map found => ?_
  exact absurd (issued.1 ⟨map, found⟩) (Nat.lt_irrefl _)

theorem Numbered.takeIn (numbered : matcher.Numbered) {map : Correspondence}
    (takes : matcher.TakesIn later map) : later.Numbered := by
  refine ⟨fun id after found => ?_, ?_⟩
  · rw [takes.found] at found
    split at found
    · rename_i same
      obtain rfl := Option.some.inj found
      exact takes.named.trans same.symm
    · exact numbered.named id after found
  rcases numbered.issued with exhausted | issued
  · exact .inl ((Changes.take takes).exhausted exhausted)
  have there (id : MapId) : (∃ after, later.get? id = some after) ↔
      id.toNat < matcher.nextMap.toNat + 1 := by
    have same : id = matcher.nextMap ↔ id.toNat = matcher.nextMap.toNat := by
      refine ⟨congrArg _, fun equal => ?_⟩
      exact congrArg Identifier.mk (UInt64.toNat_inj.1 equal)
    rw [takes.found, Nat.lt_succ_iff_lt_or_eq, ← same, ← issued]
    split
    · rename_i here
      simp [here]
    · rename_i elsewhere
      simp [elsewhere]
  by_cases room : matcher.nextMap.toNat + 1 < UInt64.size
  · refine .inr fun id => ?_
    rw [takes.next, toNat_next room]
    exact there id
  · refine .inl fun id => (there id).2 ?_
    have small : id.toNat < UInt64.size := id.number.toNat_lt_size
    omega

theorem there_update (matcher : Matcher) (id query : MapId)
    (change : Correspondence → Correspondence) :
    (∃ map, (matcher.update id change).get? query = some map) ↔
      ∃ map, matcher.get? query = some map := by
  rw [get?_update]
  split
  · simp
  · rfl

theorem exhausted_update {id : MapId} {change : Correspondence → Correspondence} :
    (matcher.update id change).Exhausted ↔ matcher.Exhausted :=
  forall_congr' fun query => matcher.there_update id query change

theorem Numbered.update (numbered : matcher.Numbered) (id : MapId)
    {change : Correspondence → Correspondence}
    (named : ∀ map : Correspondence, (change map).id = map.id) :
    (matcher.update id change).Numbered := by
  refine ⟨fun query after found => ?_, ?_⟩
  · rw [get?_update] at found
    split at found
    · obtain ⟨map, held, rfl⟩ := Option.map_eq_some_iff.1 found
      exact (named map).trans (numbered.named query map held)
    · exact numbered.named query after found
  · exact numbered.issued.imp exhausted_update.2 fun issued query =>
      (matcher.there_update id query change).trans (issued query)

theorem Numbered.changes (numbered : matcher.Numbered) (changes : matcher.Changes later) :
    later.Numbered := by
  cases changes with
  | leave maps next =>
    have same := get?_of_maps maps
    exact ⟨by simpa [same] using numbered.named, by
      simpa [Exhausted, same, next] using numbered.issued⟩
  | take takes => exact numbered.takeIn takes
  | revise other named steady => exact numbered.update other named

theorem Numbered.retains (numbered : matcher.Numbered) (free : ¬matcher.Exhausted)
    (changes : matcher.Changes later) : matcher.Retains later := by
  intro id map found satisfied
  cases changes with
  | leave maps next => exact ⟨map, (get?_of_maps maps id).trans found, satisfied, rfl⟩
  | take takes =>
    have different : id ≠ matcher.nextMap := by
      rintro rfl
      exact absurd ((numbered.fresh free).symm.trans found) (by simp)
    exact ⟨map, by rw [takes.found, if_neg different, found], satisfied, rfl⟩
  | @revise other change named steady =>
    rw [get?_update]
    split
    · rename_i same
      obtain ⟨still, tentative⟩ := steady map (same ▸ found) satisfied
      exact ⟨change map, by rw [found]; rfl, still, tentative⟩
    · exact ⟨map, found, satisfied, rfl⟩

theorem Numbered.prepare (numbered : matcher.Numbered) {options : PassOptions}
    (steady : options.reset = false) : (matcher.prepare options).Numbered := by
  refine numbered.changes (.leave ?_ ?_)
  · simp [Matcher.prepare, steady]
  · simp [Matcher.prepare, steady]

end Matcher

namespace PassState

open Matcher

variable {context : PassContext} {state later : PassState} {events : List PassEvent}

theorem Act.changes (act : Act context state events later) (numbered : state.matcher.Numbered) :
    state.matcher.Changes later.matcher := by
  cases act with
  | note tag entity => exact .leave rfl rfl
  | spend paid =>
    obtain ⟨-, rfl⟩ := spend?_eq_some paid
    exact .leave rfl rfl
  | sow planned place unseeded => exact .take (state.matcher.takesIn_allocate _)
  | @unite _ _ leftMap rightMap merged _ foundLeft foundRight united =>
    exact .take ((state.matcher.takesIn_allocate merged).update rfl rfl)
  | @satisfy id map found =>
    unfold markSatisfied
    split
    · exact .leave rfl rfl
    · rename_i open_
      refine .revise map.id (fun _ => rfl) fun other held satisfied => ?_
      rw [numbered.named id map found, found] at held
      obtain rfl := Option.some.inj held
      exact absurd satisfied open_
  | branch id node settled =>
    obtain ⟨-, same | ⟨map, pairs, formulas, -, adopted⟩⟩ :=
      state.appendBranch_cases context id node
    · rw [same]
      exact .leave rfl rfl
    · rw [adopted]
      refine .revise map.id (fun before => (before.stays_adopt pairs formulas).id)
        fun before _ satisfied => ?_
      have stays := before.stays_adopt pairs formulas
      exact ⟨stays.satisfied.trans satisfied, stays.tentative⟩
  | conclude id conclusions =>
    exact .revise id (fun _ => rfl) fun _ _ satisfied => ⟨satisfied, rfl⟩

end PassState

end ConceptLaws
