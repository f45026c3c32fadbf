import ConceptLaws.Proofs.Correspondence.Basic
import ConceptLaws.Proofs.Relation.Basic

/-! The matcher in order.
Correspondences are kept under the identifiers they carry, identifiers are not given out twice while
they last, and where the registry names a correspondence at a pair, the correspondence has the pair. -/

namespace ConceptLaws.Matcher

structure Sound (matcher : Matcher) : Prop where
  named : ∀ id map, matcher.get? id = some map → map.id = id
  issued : ∀ id map, matcher.get? id = some map → id.toNat < matcher.nextMap.toNat
  listed : ∀ pair id, id ∈ matcher.registered pair → id.toNat < matcher.nextMap.toNat
  maps : ∀ id map, matcher.get? id = some map → map.Sound
  registered : ∀ pair id map, id ∈ matcher.registered pair → matcher.get? id = some map →
    map.entityOf[pair.node]? = some pair.entity

theorem sound_empty (maxChecks : Nat) : (empty maxChecks).Sound := by
  have nothing : ∀ id, (empty maxChecks).get? id = none := fun _ => rfl
  have unlisted : ∀ pair id, id ∉ (empty maxChecks).registered pair := by
    intro pair id
    simp [empty, Matcher.registered]
  exact ⟨by simp [nothing], by simp [nothing], fun pair id member => (unlisted pair id member).elim,
    by simp [nothing], fun pair id _ member => (unlisted pair id member).elim⟩

theorem Sound.of_maps {matcher later : Matcher} (sound : matcher.Sound)
    (maps : later.maps = matcher.maps) (registry : later.registry = matcher.registry)
    (next : later.nextMap = matcher.nextMap) : later.Sound := by
  obtain ⟨otherMaps, nextMap, otherRegistry, checked, checks, maxChecks⟩ := later
  obtain rfl : otherMaps = matcher.maps := maps
  obtain rfl : otherRegistry = matcher.registry := registry
  obtain rfl : nextMap = matcher.nextMap := next
  exact ⟨sound.named, sound.issued, sound.listed, sound.maps, sound.registered⟩

theorem toNat_next {kind : IdKind} {id : Identifier kind} (room : id.toNat + 1 < UInt64.size) :
    id.next.toNat = id.toNat + 1 := by
  unfold Identifier.next Identifier.toNat at *
  rw [UInt64.toNat_add]
  exact Nat.mod_eq_of_lt room

theorem get?_update (matcher : Matcher) (id query : MapId)
    (change : Correspondence → Correspondence) :
    (matcher.update id change).get? query =
      if query = id then (matcher.get? query).map change else matcher.get? query := by
  unfold update get?
  rw [Std.ExtTreeMap.getElem?_modify]
  simp only [Std.compare_eq_iff_eq]
  by_cases same : id = query
  · simp [same]
  · rw [if_neg same, if_neg (Ne.symm same)]

/-- A correspondence that grows leaves the matcher in order. -/
theorem Sound.update {matcher : Matcher} (sound : matcher.Sound) {id : MapId}
    {change : Correspondence → Correspondence} (grows : ∀ map : Correspondence, map.Grows (change map)) :
    (matcher.update id change).Sound := by
  have origin : ∀ query later, (matcher.update id change).get? query = some later →
      ∃ map, matcher.get? query = some map ∧ map.Grows later := by
    intro query later found
    rw [get?_update] at found
    split at found
    · obtain ⟨map, before, rfl⟩ := Option.map_eq_some_iff.1 found
      exact ⟨map, before, grows map⟩
    · exact ⟨later, found, later.grows_refl⟩
  refine ⟨fun query later found => ?_, fun query later found => ?_, sound.listed,
    fun query later found => ?_, fun pair query later member found => ?_⟩
  · obtain ⟨map, before, grown⟩ := origin query later found
    exact grown.id.trans (sound.named query map before)
  · obtain ⟨map, before, -⟩ := origin query later found
    exact sound.issued query map before
  · obtain ⟨map, before, grown⟩ := origin query later found
    exact (sound.maps query map before).grow grown
  · obtain ⟨map, before, grown⟩ := origin query later found
    exact grown.kept _ _ (sound.registered pair query map member before)

/-! ## New correspondences -/

/-- The correspondence as it is taken in. -/
def taken (matcher : Matcher) (map : Correspondence) : Correspondence :=
  { map with
    id := matcher.nextMap
    intersections := (map.intersections.insertMany (matcher.sharing map.pairs).toList).erase
      matcher.nextMap }

theorem get?_allocate (matcher : Matcher) (map : Correspondence) (query : MapId) :
    (matcher.allocate map).2.get? query =
      if query = matcher.nextMap then some (matcher.taken map) else matcher.get? query := by
  unfold allocate get?
  dsimp only
  rw [Std.ExtTreeMap.getElem?_insert]
  simp only [Std.compare_eq_iff_eq]
  by_cases same : matcher.nextMap = query
  · simp [same, taken]
  · rw [if_neg same, if_neg (Ne.symm same)]

theorem mem_foldl_register {pairs : List Pair} {id query : MapId} {pair : Pair}
    {registry : Std.ExtTreeMap Pair (Std.ExtTreeSet MapId)} :
    query ∈ (pairs.foldl (register id) registry).getD pair ∅ ↔
      query ∈ registry.getD pair ∅ ∨ (query = id ∧ pair ∈ pairs) := by
  induction pairs generalizing registry with
  | nil => simp
  | cons first rest ih =>
    rw [List.foldl_cons, ih, List.mem_cons]
    unfold register
    rw [Std.ExtTreeMap.getD_insert]
    simp only [Std.compare_eq_iff_eq]
    by_cases same : first = pair
    · subst same
      simp only [if_true, Std.ExtTreeSet.mem_insert, Std.compare_eq_iff_eq]
      grind
    · simp only [if_neg same]
      grind

theorem mem_registered_allocate {matcher : Matcher} {map : Correspondence} {pair : Pair}
    {query : MapId} :
    query ∈ (matcher.allocate map).2.registered pair ↔
      query ∈ matcher.registered pair ∨ (query = matcher.nextMap ∧ pair ∈ map.pairs) :=
  mem_foldl_register

theorem Sound.fresh {matcher : Matcher} (sound : matcher.Sound) :
    matcher.get? matcher.nextMap = none := by
  cases found : matcher.get? matcher.nextMap with
  | none => rfl
  | some map =>
    have below := sound.issued _ map found
    omega

theorem Sound.allocate {matcher : Matcher} (sound : matcher.Sound) {map : Correspondence}
    (mapSound : map.Sound) (room : matcher.nextMap.toNat + 1 < UInt64.size) :
    (matcher.allocate map).2.Sound := by
  have next : (matcher.allocate map).2.nextMap.toNat = matcher.nextMap.toNat + 1 :=
    toNat_next room
  have grown : map.Sound → (matcher.taken map).Sound := fun sound =>
    ⟨sound.paired, sound.built, sound.anchored⟩
  refine ⟨fun query later found => ?_, fun query later found => ?_, fun pair query member => ?_,
    fun query later found => ?_, fun pair query later member found => ?_⟩
  · rw [get?_allocate] at found
    split at found
    · rename_i same
      obtain rfl := Option.some.inj found
      exact same.symm
    · exact sound.named query later found
  · rw [next]
    rw [get?_allocate] at found
    split at found
    · rename_i same
      rw [same]
      exact Nat.lt_succ_self _
    · exact Nat.lt_succ_of_lt (sound.issued query later found)
  · rw [next]
    rcases mem_registered_allocate.1 member with old | ⟨rfl, -⟩
    · exact Nat.lt_succ_of_lt (sound.listed pair query old)
    · exact Nat.lt_succ_self _
  · rw [get?_allocate] at found
    split at found
    · obtain rfl := Option.some.inj found
      exact grown mapSound
    · exact sound.maps query later found
  · rw [mem_registered_allocate] at member
    rw [get?_allocate] at found
    split at found
    · rename_i same
      obtain rfl := Option.some.inj found
      subst same
      rcases member with old | ⟨-, listed⟩
      · have below := sound.listed pair _ old
        omega
      · exact (mapSound.paired _ _).1 (Correspondence.mem_pairs.1 listed)
    · rename_i different
      rcases member with old | ⟨same, -⟩
      · exact sound.registered pair query later old found
      · exact (different same).elim

/-! ## Dropping correspondences -/

theorem get?_drop (matcher : Matcher) (map : Correspondence) (query : MapId) :
    (matcher.drop map).get? query = if query = map.id then none else matcher.get? query := by
  unfold drop get?
  rw [Std.ExtTreeMap.getElem?_erase]
  simp only [Std.compare_eq_iff_eq]
  by_cases same : map.id = query
  · simp [same]
  · rw [if_neg same, if_neg (Ne.symm same)]

theorem get?_foldl_drop (stale : List Correspondence) (matcher : Matcher) (query : MapId) :
    (stale.foldl drop matcher).get? query =
      if ∃ map ∈ stale, query = map.id then none else matcher.get? query := by
  induction stale generalizing matcher with
  | nil => simp
  | cons first rest ih =>
    rw [List.foldl_cons, ih, get?_drop]
    simp only [List.mem_cons, exists_eq_or_imp]
    by_cases later : ∃ map ∈ rest, query = map.id
    · rw [if_pos later, if_pos (Or.inr later)]
    · by_cases same : query = first.id
      · rw [if_neg later, if_pos same, if_pos (Or.inl same)]
      · rw [if_neg later, if_neg same, if_neg]
        exact fun either => either.elim same later

theorem mem_unregister {registry : Std.ExtTreeMap Pair (Std.ExtTreeSet MapId)} {id other : MapId}
    {gone pair : Pair} : other ∈ (unregister id registry gone).getD pair ∅ ↔
      other ∈ registry.getD pair ∅ ∧ ¬(other = id ∧ pair = gone) := by
  unfold unregister
  rw [Std.ExtTreeMap.getD_modify]
  simp only [Std.compare_eq_iff_eq]
  split
  · rename_i same
    subst same
    rw [Std.ExtTreeMap.getD_eq_getD_getElem?]
    cases registry[gone]? with
    | none => simp
    | some ids =>
      simp only [Option.map_some, Option.getD_some, Std.ExtTreeSet.mem_erase, ne_eq,
        Std.compare_eq_iff_eq, and_true, @eq_comm _ other]
      exact and_comm
  · rename_i different
    simp [Ne.symm different]

theorem mem_foldl_unregister {pairs : List Pair} {id other : MapId} {pair : Pair}
    {registry : Std.ExtTreeMap Pair (Std.ExtTreeSet MapId)} :
    other ∈ (pairs.foldl (unregister id) registry).getD pair ∅ ↔
      other ∈ registry.getD pair ∅ ∧ ¬(other = id ∧ pair ∈ pairs) := by
  induction pairs generalizing registry with
  | nil => simp
  | cons first rest ih =>
    rw [List.foldl_cons, ih, mem_unregister, List.mem_cons]
    grind

/-- Dropped correspondences are taken out of the registry at the pairs that they have. -/
theorem mem_registered_foldl_drop {id : MapId} {pair : Pair} (stale : List Correspondence)
    (matcher : Matcher) : id ∈ (stale.foldl drop matcher).registered pair ↔
      id ∈ matcher.registered pair ∧ ∀ map ∈ stale, ¬(id = map.id ∧ pair ∈ map.pairs) := by
  induction stale generalizing matcher with
  | nil => simp
  | cons first rest ih =>
    rw [List.foldl_cons, ih, List.forall_mem_cons, ← and_assoc]
    exact and_congr_left' mem_foldl_unregister

theorem mem_toList {matcher : Matcher} {map : Correspondence} :
    map ∈ matcher.toList ↔ ∃ id, matcher.get? id = some map :=
  mem_values

/-- Exactly the correspondences in which the entity occurs are dropped. -/
theorem get?_forgetEntity {matcher : Matcher}
    (named : ∀ id map, matcher.get? id = some map → map.id = id) (entity : EntityId)
    (query : MapId) : (matcher.forgetEntity entity).get? query =
      (matcher.get? query).filter fun map => !map.nodeOf.contains entity := by
  have dropped : (matcher.forgetEntity entity).get? query =
      ((matcher.toList.filter fun map => map.nodeOf.contains entity).foldl drop matcher).get?
        query := rfl
  rw [dropped, get?_foldl_drop]
  cases found : matcher.get? query with
  | none => simp
  | some map =>
    have stale : (∃ other ∈ matcher.toList.filter fun map => map.nodeOf.contains entity,
        query = other.id) ↔ map.nodeOf.contains entity = true := by
      constructor
      · intro exists_
        obtain ⟨other, member, same⟩ := exists_
        obtain ⟨listed, occurs⟩ := List.mem_filter.1 member
        obtain ⟨id, foundOther⟩ := mem_toList.1 listed
        rw [named id other foundOther] at same
        subst same
        obtain rfl : map = other := Option.some.inj (found.symm.trans foundOther)
        exact occurs
      · intro occurs
        exact ⟨map, List.mem_filter.2 ⟨mem_toList.2 ⟨query, found⟩, occurs⟩,
          (named query map found).symm⟩
    cases occurs : map.nodeOf.contains entity with
    | true => rw [if_pos (stale.2 occurs), Option.filter_some, if_neg (by simp [occurs])]
    | false =>
      have kept := mt stale.1 (by simp [occurs])
      rw [if_neg kept, Option.filter_some, if_pos (by simp [occurs])]

/-- Where nobody is registered any more the registry has no entry, which makes no difference. -/
theorem mem_registered_forgetEntity {matcher : Matcher} {entity : EntityId} {id : MapId}
    {pair : Pair} : id ∈ (matcher.forgetEntity entity).registered pair ↔
      id ∈ matcher.registered pair ∧ ∀ map ∈ matcher.toList, map.nodeOf.contains entity = true →
        ¬(id = map.id ∧ pair ∈ map.pairs) := by
  have dropped := @mem_registered_foldl_drop id pair
    (matcher.toList.filter fun map => map.nodeOf.contains entity) matcher
  simp only [List.mem_filter, and_imp] at dropped
  rw [← dropped]
  unfold forgetEntity registered
  dsimp only
  generalize (List.foldl drop matcher _).registry = registry
  rw [Std.ExtTreeMap.getD_eq_getD_getElem?, Std.ExtTreeMap.getD_eq_getD_getElem?,
    Std.ExtTreeMap.getElem?_filter']
  cases registry[pair]? with
  | none => rfl
  | some ids =>
    rw [Option.filter_some]
    split
    · rfl
    · rename_i nobody
      have empty : ids = ∅ := Std.ExtTreeSet.isEmpty_iff.1 (by simpa using nobody)
      simp [empty]

/-- Only the correspondences, the registry and the note of the entity change. -/
theorem forgetEntity_eq (matcher : Matcher) (entity : EntityId) : ∃ maps registry,
    matcher.forgetEntity entity =
      { matcher with maps, registry, checked := matcher.checked.erase entity } := by
  have dropped (stale : List Correspondence) (matcher : Matcher) :
      ∃ maps registry, stale.foldl drop matcher = { matcher with maps, registry } := by
    induction stale generalizing matcher with
    | nil => exact ⟨matcher.maps, matcher.registry, rfl⟩
    | cons first rest ih => exact ih (matcher.drop first)
  obtain ⟨maps, registry, same⟩ :=
    dropped (matcher.toList.filter fun map => map.nodeOf.contains entity) matcher
  refine ⟨maps, registry.filter fun _ ids => !ids.isEmpty, ?_⟩
  unfold forgetEntity
  dsimp only
  rw [same]

theorem nextMap_forgetEntity (matcher : Matcher) (id : EntityId) :
    (matcher.forgetEntity id).nextMap = matcher.nextMap := by
  obtain ⟨maps, registry, same⟩ := matcher.forgetEntity_eq id
  rw [same]

end ConceptLaws.Matcher
