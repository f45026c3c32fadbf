import ConceptLaws.Proofs.Propagation.Linkage
import ConceptLaws.Proofs.Propagation.Symbol

/-! What an export tells.
The export of a key nests objects as the keys below it are nested. A key that holds a value and has
children is exported with its own value as one more field, and nothing keeps a child from bearing
the name of that field: its export then replaces the own value. Apart from that no value is lost,
and the values can be read off the export. -/

namespace ConceptLaws

/-! ## Finite data -/

namespace Datum

mutual

/-- Whether all numbers of a datum are finite. -/
def isFinite : Datum → Bool
  | number value => value.isFinite
  | text _ => true
  | list items => allFinite items

def allFinite : List Datum → Bool
  | [] => true
  | item :: rest => item.isFinite && allFinite rest

end

end Datum

/-! ## Places in an export -/

namespace Json

/-- What stands at a path of nested objects. -/
def at? : Json → Path → Option Json
  | json, [] => some json
  | json, segment :: rest => json.field? segment >>= fun field => field.at? rest

/-- The own value of an exported key. -/
def own? : Json → Option Json
  | null => none
  | object fields => (object fields).field? Propagation.ownValueSegment
  | json => some json

theorem isNull_of_own? {json own : Json} (found : json.own? = some own) : json.isNull = false := by
  cases json with
  | null => cases found
  | _ => rfl

theorem at?_append (json : Json) (first second : Path) :
    json.at? (first ++ second) = json.at? first >>= fun inner => inner.at? second := by
  induction first generalizing json with
  | nil => rfl
  | cons segment rest ih =>
    rw [List.cons_append, at?, at?]
    cases json.field? segment with
    | none => rfl
    | some field => exact ih field

end Json

namespace Propagation.Network

theorem field?_exportDatum (value : Datum) (segment : String) :
    (exportDatum value).field? segment = none := by
  cases value with
  | number value =>
    rw [exportDatum]
    split <;> rfl
  | text content => rfl
  | list items => rfl

theorem own?_exportDatum {value : Datum} (finite : value.isFinite = true) :
    (exportDatum value).own? = some (exportDatum value) := by
  cases value with
  | number value =>
    rw [Datum.isFinite] at finite
    simp only [exportDatum, finite, ↓reduceIte]
    rfl
  | text content => rfl
  | list items => rfl

mutual

/-- The datum that is exported as a JSON value. -/
def importDatum? : Json → Option Datum
  | .real value => some (.number value)
  | .string content => some (.text content)
  | .array items => (importItems? items).map .list
  | _ => none

def importItems? : List Json → Option (List Datum)
  | [] => some []
  | item :: rest =>
    match importDatum? item, importItems? rest with
    | some datum, some data => some (datum :: data)
    | _, _ => none

end

mutual

theorem importDatum?_exportDatum : (value : Datum) → value.isFinite = true →
    importDatum? (exportDatum value) = some value
  | .number value, finite => by
    rw [Datum.isFinite] at finite
    rw [exportDatum, if_pos finite, importDatum?]
  | .text content, _ => by rw [exportDatum, importDatum?]
  | .list items, finite => by
    rw [Datum.isFinite] at finite
    rw [exportDatum, importDatum?, importItems?_exportItems items finite, Option.map_some]

theorem importItems?_exportItems : (items : List Datum) → Datum.allFinite items = true →
    importItems? (exportItems items) = some items
  | [], _ => rfl
  | item :: rest, finite => by
    rw [Datum.allFinite, Bool.and_eq_true] at finite
    rw [exportItems, importItems?, importDatum?_exportDatum item finite.1,
      importItems?_exportItems rest finite.2]

end

/-- Finite data can be told apart by what they are exported as. -/
theorem exportDatum_injective {left right : Datum} (leftFinite : left.isFinite = true)
    (rightFinite : right.isFinite = true) (same : exportDatum left = exportDatum right) :
    left = right := by
  refine Option.some.inj ?_
  rw [← importDatum?_exportDatum left leftFinite, same, importDatum?_exportDatum right rightFinite]

/-! ## One level -/

variable {tree : Tree} {path : Path} {depth : Nat} {segment : String}

theorem lookup_toList (fields : Std.ExtTreeMap String Json) (name : String) :
    fields.toList.lookup name = fields[name]? := by
  have lookup {entries : List (String × Json)}
      (distinct : entries.Pairwise fun left right => ¬compare left.1 right.1 = .eq)
      (value : Json) : entries.lookup name = some value ↔ (name, value) ∈ entries := by
    induction entries with
    | nil => simp
    | cons first rest ih =>
      obtain ⟨others, distinct⟩ := List.pairwise_cons.1 distinct
      rw [List.lookup_cons, List.mem_cons]
      by_cases same : name = first.1
      · subst same
        have absent : (first.1, value) ∉ rest := fun member => others _ member (by simp)
        simp [absent, Prod.ext_iff, eq_comm]
      · rw [beq_eq_false_iff_ne.2 same]
        simp only [ih distinct, Prod.ext_iff, same, false_and, false_or]
  refine Option.ext fun value => ?_
  rw [lookup Std.ExtTreeMap.distinct_keys_toList, Std.ExtTreeMap.mem_toList_iff_getElem?_eq_some]

/-- Adds the export of a child to the fields, unless it is empty. -/
def exportChild (tree : Tree) (depth : Nat) (fields : Std.ExtTreeMap String Json) (child : Path) :
    Std.ExtTreeMap String Json :=
  let exported := exportTree tree depth child
  match child.getLast?, exported.isNull with
  | some segment, false => fields.insert segment exported
  | _, _ => fields

/-- The fields that an own value makes. -/
def ownFields (own : Option Json) : Std.ExtTreeMap String Json :=
  match own with
  | some own => (∅ : Std.ExtTreeMap String Json).insert ownValueSegment own
  | none => ∅

/-- The fields that a key with children is exported with. -/
def exportFields (tree : Tree) (depth : Nat) (path : Path) : Std.ExtTreeMap String Json :=
  (tree.children path).foldl (exportChild tree depth)
    (ownFields ((valueAt tree path).map exportDatum))

theorem exportTree_succ (tree : Tree) (depth : Nat) (path : Path) :
    exportTree tree (depth + 1) path =
      if (tree.children path).isEmpty then ((valueAt tree path).map exportDatum).getD .null
      else if (exportFields tree depth path).isEmpty then .null
      else .object (exportFields tree depth path).toList := rfl

theorem getElem?_exportChild (tree : Tree) (depth : Nat) (fields : Std.ExtTreeMap String Json)
    (path : Path) (segment name : String) :
    (exportChild tree depth fields (path.child segment))[name]? =
      if name = segment ∧ (exportTree tree depth (path.child segment)).isNull = false then
        some (exportTree tree depth (path.child segment))
      else fields[name]? := by
  have last : (path.child segment).getLast? = some segment := by simp [Path.child]
  unfold exportChild
  dsimp only
  rw [last]
  cases (exportTree tree depth (path.child segment)).isNull with
  | true => simp
  | false =>
    dsimp only
    rw [Std.ExtTreeMap.getElem?_insert]
    by_cases same : name = segment
    · simp [same]
    · simp [same, Ne.symm same]

theorem getElem?_ownFields (own : Option Json) (name : String) :
    (ownFields own)[name]? = if name = ownValueSegment then own else none := by
  cases own with
  | none => simp [ownFields]
  | some own =>
    rw [ownFields, Std.ExtTreeMap.getElem?_insert]
    by_cases same : name = ownValueSegment
    · simp [same]
    · simp [same, Ne.symm same]

/-- The children come after the own value, so a child that bears its name takes its place. -/
theorem getElem?_exportFields (tree : Tree) (depth : Nat) (path : Path) (segment : String) :
    (exportFields tree depth path)[segment]? =
      if (tree.cell? (path.child segment)).isSome = true ∧
          (exportTree tree depth (path.child segment)).isNull = false then
        some (exportTree tree depth (path.child segment))
      else if segment = ownValueSegment then (valueAt tree path).map exportDatum
      else none := by
  have folded (children : List Path) (named : ∀ child ∈ children, ∃ name, child = path.child name)
      (start : Std.ExtTreeMap String Json) :
      (children.foldl (exportChild tree depth) start)[segment]? =
        if path.child segment ∈ children ∧
            (exportTree tree depth (path.child segment)).isNull = false then
          some (exportTree tree depth (path.child segment))
        else start[segment]? := by
    induction children generalizing start with
    | nil => simp
    | cons first rest ih =>
      obtain ⟨name, rfl⟩ := named first List.mem_cons_self
      rw [List.foldl_cons, ih fun child member => named child (List.mem_cons_of_mem _ member),
        getElem?_exportChild]
      simp only [List.mem_cons, Path.child_inj]
      by_cases same : segment = name
      · subst same
        cases (exportTree tree depth (path.child segment)).isNull <;> simp
      · simp [same]
  unfold exportFields
  rw [folded _ fun child member => exists_of_mem_children member, getElem?_ownFields]
  simp only [child_mem_children]

/-! ## Values below -/

/-- A value stands at or below the path. -/
def Valued (tree : Tree) (path : Path) : Prop :=
  ∃ suffix, (valueAt tree (path ++ suffix)).isSome = true

/-- The values at and below the path are finite. -/
def FiniteFrom (tree : Tree) (path : Path) : Prop :=
  ∀ suffix value, valueAt tree (path ++ suffix) = some value → value.isFinite = true

theorem Valued.of_child (valued : Valued tree (path.child segment)) : Valued tree path := by
  obtain ⟨suffix, there⟩ := valued
  rw [Path.child_append] at there
  exact ⟨segment :: suffix, there⟩

theorem FiniteFrom.child (finite : FiniteFrom tree path) (segment : String) :
    FiniteFrom tree (path.child segment) := by
  intro suffix value found
  rw [Path.child_append] at found
  exact finite (segment :: suffix) value found

theorem Valued.present (valued : Valued tree path) (rooted : tree.Rooted) :
    (tree.cell? path).isSome = true := by
  obtain ⟨suffix, there⟩ := valued
  unfold valueAt at there
  cases found : tree.cell? (path ++ suffix) with
  | none => simp [found] at there
  | some cell => exact rooted _ cell found path (Path.isWithin_append ..)

/-- Without children there is no value but the own one. -/
theorem valued_of_no_children (rooted : tree.Rooted) (empty : (tree.children path).isEmpty = true) :
    Valued tree path ↔ (valueAt tree path).isSome = true := by
  constructor
  · rintro ⟨suffix, there⟩
    cases suffix with
    | nil => simpa using there
    | cons segment rest =>
      rw [← Path.child_append] at there
      have present := Valued.present ⟨rest, there⟩ rooted
      rw [← child_mem_children, List.isEmpty_iff.1 empty] at present
      cases present
  · exact fun there => ⟨[], by simpa using there⟩

theorem sublist_subtree {lower upper : Path} (within : lower.isWithin upper = true) :
    (tree.subtree lower).Sublist (tree.subtree upper) := by
  rw [Tree.subtree_eq_filter, Tree.subtree_eq_filter]
  exact List.monotone_filter_right _ fun entry below => Path.isWithin_trans below within

theorem deep_append (deep : (tree.subtree path).length ≤ depth) (suffix : Path) :
    (tree.subtree (path ++ suffix)).length ≤ depth :=
  (sublist_subtree (Path.isWithin_append ..)).length_le.trans deep

/-- A sub-tree has more keys than that of a child. -/
theorem length_subtree_child (present : (tree.cell? path).isSome = true) (segment : String) :
    (tree.subtree (path.child segment)).length < (tree.subtree path).length := by
  have sub : (tree.subtree (path.child segment)).Sublist (tree.subtree path) :=
    sublist_subtree (Path.isWithin_child ..)
  refine Nat.lt_of_le_of_ne sub.length_le fun same => ?_
  obtain ⟨cell, found⟩ := Option.isSome_iff_exists.1 present
  have inside : (path, cell) ∈ tree.subtree path :=
    Tree.mem_subtree.2 ⟨found, Path.isWithin_refl path⟩
  rw [← sub.eq_of_length same] at inside
  have shorter := (Path.isWithin_iff.1 (Tree.mem_subtree.1 inside).2).length_le
  rw [Path.length_child] at shorter
  omega

theorem deep_child (rooted : tree.Rooted) (deep : (tree.subtree path).length ≤ depth + 1)
    (there : (tree.cell? (path.child segment)).isSome = true) :
    (tree.subtree (path.child segment)).length ≤ depth := by
  obtain ⟨cell, found⟩ := Option.isSome_iff_exists.1 there
  have present := rooted _ cell found path (Path.isWithin_child ..)
  have fewer := length_subtree_child present segment
  omega

theorem cell?_of_length (short : (tree.subtree path).length ≤ 0) : tree.cell? path = none := by
  rw [Option.eq_none_iff_forall_ne_some]
  intro cell found
  have inside : (path, cell) ∈ tree.subtree path :=
    Tree.mem_subtree.2 ⟨found, Path.isWithin_refl path⟩
  rw [List.length_eq_zero_iff.1 (Nat.le_zero.1 short)] at inside
  cases inside

theorem not_valued_of_length (rooted : tree.Rooted) (short : (tree.subtree path).length ≤ 0) :
    ¬Valued tree path := by
  intro valued
  have present := valued.present rooted
  rw [cell?_of_length short] at present
  cases present

theorem isEmpty_iff_forall {fields : Std.ExtTreeMap String Json} :
    fields.isEmpty = true ↔ ∀ name : String, fields[name]? = none := by
  simp only [Std.ExtTreeMap.isEmpty_iff, Std.ExtTreeMap.eq_empty_iff_forall_not_mem,
    Std.ExtTreeMap.mem_iff_isSome_getElem?, Option.not_isSome_iff_eq_none]

/-- A key that is not there is exported as null. -/
theorem exportTree_of_absent (rooted : tree.Rooted) (absent : tree.cell? path = none)
    (depth : Nat) : exportTree tree depth path = .null := by
  cases depth with
  | zero => rfl
  | succ depth =>
    have bare : tree.children path = [] := by
      rw [List.eq_nil_iff_forall_not_mem]
      intro child member
      obtain ⟨present, within, -⟩ := mem_children.1 member
      obtain ⟨cell, found⟩ := Option.isSome_iff_exists.1 present
      have above := rooted child cell found path within
      rw [absent] at above
      cases above
    rw [exportTree_succ, bare, valueAt, absent]
    rfl

/-- A depth that no path of the sub-tree reaches bounds nothing. -/
theorem exportTree_congr (rooted : tree.Rooted) {more : Nat}
    (deep : (tree.subtree path).length ≤ depth) (also : (tree.subtree path).length ≤ more) :
    exportTree tree depth path = exportTree tree more path := by
  induction depth generalizing path more with
  | zero => rw [exportTree_of_absent rooted (cell?_of_length deep),
      exportTree_of_absent rooted (cell?_of_length deep)]
  | succ depth ih =>
    cases more with
    | zero => rw [exportTree_of_absent rooted (cell?_of_length also),
        exportTree_of_absent rooted (cell?_of_length also)]
    | succ more =>
      have fields : exportFields tree depth path = exportFields tree more path := by
        refine Std.ExtTreeMap.ext_getElem? fun name => ?_
        rw [getElem?_exportFields, getElem?_exportFields]
        by_cases present : (tree.cell? (path.child name)).isSome = true
        · rw [ih (deep_child rooted deep present) (deep_child rooted also present)]
        · simp [present]
      rw [exportTree_succ, exportTree_succ, fields]

/-- An export is null just where there is no value. -/
theorem isNull_exportTree (rooted : tree.Rooted) (finite : FiniteFrom tree path)
    (deep : (tree.subtree path).length ≤ depth) :
    (exportTree tree depth path).isNull = true ↔ ¬Valued tree path := by
  induction depth generalizing path with
  | zero => simpa [exportTree, Json.isNull] using not_valued_of_length rooted deep
  | succ depth ih =>
    have child (segment : String) (there : (tree.cell? (path.child segment)).isSome = true) :
        (exportTree tree depth (path.child segment)).isNull = false ↔
          Valued tree (path.child segment) := by
      rw [← Bool.not_eq_true, ih (finite.child segment) (deep_child rooted deep there), not_not]
    rw [exportTree_succ]
    by_cases empty : (tree.children path).isEmpty = true
    · rw [if_pos empty, valued_of_no_children rooted empty]
      cases found : valueAt tree path with
      | none => simp [Json.isNull]
      | some value =>
        simpa using Json.isNull_of_own? (own?_exportDatum (finite [] value (by simpa using found)))
    · have null : (if (exportFields tree depth path).isEmpty = true then Json.null
          else .object (exportFields tree depth path).toList).isNull = true ↔
            ∀ name : String, (exportFields tree depth path)[name]? = none := by
        rw [← isEmpty_iff_forall]
        cases (exportFields tree depth path).isEmpty <;> simp [Json.isNull]
      rw [if_neg empty, null]
      constructor
      · rintro bare ⟨suffix, there⟩
        cases suffix with
        | nil =>
          have own := bare ownValueSegment
          rw [getElem?_exportFields] at own
          split at own
          · cases own
          · rw [List.append_nil] at there
            simp [Option.isSome_iff_ne_none.1 there] at own
        | cons segment rest =>
          rw [← Path.child_append] at there
          have present := Valued.present ⟨rest, there⟩ rooted
          have absent := bare segment
          rw [getElem?_exportFields,
            if_pos ⟨present, (child segment present).2 ⟨rest, there⟩⟩] at absent
          cases absent
      · intro unvalued name
        have own : valueAt tree path = none := by
          rw [← Option.not_isSome_iff_eq_none]
          exact fun there => unvalued ⟨[], by simpa using there⟩
        rw [getElem?_exportFields, if_neg, own]
        · simp
        · rintro ⟨present, filled⟩
          exact unvalued ((child name present).1 filled).of_child

/-! ## Reading an export -/

theorem field?_exportTree (several : (tree.children path).isEmpty = false) (segment : String) :
    (exportTree tree (depth + 1) path).field? segment =
      (exportFields tree depth path)[segment]? := by
  rw [exportTree_succ, if_neg (by simp [several])]
  split
  · rename_i empty
    exact (isEmpty_iff_forall.1 empty segment).symm
  · exact lookup_toList _ segment

theorem exportTree_of_no_children (empty : (tree.children path).isEmpty = true) :
    exportTree tree (depth + 1) path = ((valueAt tree path).map exportDatum).getD .null := by
  rw [exportTree_succ, if_pos empty]

theorem field?_exportTree_of_valued (rooted : tree.Rooted) (finite : FiniteFrom tree path)
    (deep : (tree.subtree path).length ≤ depth + 1) (valued : Valued tree (path.child segment)) :
    (exportTree tree (depth + 1) path).field? segment =
      some (exportTree tree depth (path.child segment)) := by
  have present := valued.present rooted
  have several : (tree.children path).isEmpty = false := by
    rw [← Bool.not_eq_true, List.isEmpty_iff]
    exact List.ne_nil_of_mem (child_mem_children.2 present)
  have filled : (exportTree tree depth (path.child segment)).isNull = false := by
    rw [← Bool.not_eq_true,
      isNull_exportTree rooted (finite.child segment) (deep_child rooted deep present), not_not]
    exact valued
  rw [field?_exportTree several, getElem?_exportFields, if_pos ⟨present, filled⟩]

/-- Where a child holds no value its place is empty, but for the own value. -/
theorem field?_exportTree_of_not_valued (rooted : tree.Rooted) (finite : FiniteFrom tree path)
    (deep : (tree.subtree path).length ≤ depth + 1)
    (several : (tree.children path).isEmpty = false)
    (unvalued : ¬Valued tree (path.child segment)) :
    (exportTree tree (depth + 1) path).field? segment =
      if segment = ownValueSegment then (valueAt tree path).map exportDatum else none := by
  rw [field?_exportTree several, getElem?_exportFields, if_neg]
  rintro ⟨present, filled⟩
  rw [← Bool.not_eq_true,
    isNull_exportTree rooted (finite.child segment) (deep_child rooted deep present)] at filled
  exact filled unvalued

theorem own?_exportTree (rooted : tree.Rooted) (finite : FiniteFrom tree path)
    (deep : (tree.subtree path).length ≤ depth)
    (free : ¬Valued tree (path.child ownValueSegment)) :
    (exportTree tree depth path).own? = (valueAt tree path).map exportDatum := by
  cases depth with
  | zero =>
    have absent : valueAt tree path = none := by
      rw [← Option.not_isSome_iff_eq_none]
      exact fun there => not_valued_of_length rooted deep ⟨[], by simpa using there⟩
    rw [absent]
    rfl
  | succ depth =>
    cases empty : (tree.children path).isEmpty with
    | true =>
      rw [exportTree_of_no_children empty]
      cases found : valueAt tree path with
      | none => rfl
      | some value => exact own?_exportDatum (finite [] value (by simpa using found))
    | false =>
      have field := field?_exportTree_of_not_valued rooted finite deep empty free
      rw [if_pos rfl] at field
      rw [← field, exportTree_succ, if_neg (by simp [empty])]
      split <;> rfl

/-- Every key at or below which a value stands is exported at its path. -/
theorem at?_exportTree (rooted : tree.Rooted) (finite : FiniteFrom tree path)
    (deep : (tree.subtree path).length ≤ depth) {suffix : Path}
    (valued : Valued tree (path ++ suffix)) :
    (exportTree tree depth path).at? suffix = some (exportTree tree depth (path ++ suffix)) := by
  induction suffix generalizing path depth with
  | nil => rw [List.append_nil]; rfl
  | cons segment rest ih =>
    rw [← Path.child_append] at valued ⊢
    have child : Valued tree (path.child segment) := by
      obtain ⟨suffix, there⟩ := valued
      exact ⟨rest ++ suffix, by rwa [← List.append_assoc]⟩
    cases depth with
    | zero => exact absurd child.of_child (not_valued_of_length rooted deep)
    | succ depth =>
      have lower := deep_child rooted deep (child.present rooted)
      rw [Json.at?, field?_exportTree_of_valued rooted finite deep child]
      refine (ih (finite.child segment) lower valued).trans ?_
      have enough := deep_append lower rest
      rw [exportTree_congr rooted enough (enough.trans (Nat.le_succ depth))]

/-- Where no value stands there is none to be read, unless the name of the own value is asked for.
-/
theorem at?_exportTree_of_not_valued (rooted : tree.Rooted) (finite : FiniteFrom tree path)
    (deep : (tree.subtree path).length ≤ depth) {suffix : Path}
    (plain : ownValueSegment ∉ suffix) (unvalued : ¬Valued tree (path ++ suffix)) :
    ((exportTree tree depth path).at? suffix >>= Json.own?) = none := by
  induction suffix generalizing path depth with
  | nil =>
    rw [List.append_nil, ← isNull_exportTree rooted finite deep] at unvalued
    cases exported : exportTree tree depth path <;> simp_all [Json.isNull, Json.at?, Json.own?]
  | cons segment rest ih =>
    obtain ⟨different, plain⟩ := not_or.1 (mt List.mem_cons.2 plain)
    rw [← Path.child_append] at unvalued
    cases depth with
    | zero => rfl
    | succ depth =>
      rw [Json.at?]
      by_cases valued : Valued tree (path.child segment)
      · rw [field?_exportTree_of_valued rooted finite deep valued]
        exact ih (finite.child segment) (deep_child rooted deep (valued.present rooted)) plain
          unvalued
      · cases empty : (tree.children path).isEmpty with
        | true =>
          rw [exportTree_of_no_children empty]
          cases valueAt tree path with
          | none => rfl
          | some value =>
            have bare := field?_exportDatum value segment
            simp [bare]
        | false =>
          rw [field?_exportTree_of_not_valued rooted finite deep empty valued,
            if_neg (Ne.symm different)]
          rfl

/-- The values are read off an export, except of keys whose own value is replaced. -/
theorem own?_at?_exportTree (rooted : tree.Rooted) (finite : FiniteFrom tree path)
    (deep : (tree.subtree path).length ≤ depth) {suffix : Path}
    (plain : ownValueSegment ∉ suffix)
    (free : ¬Valued tree ((path ++ suffix).child ownValueSegment)) :
    ((exportTree tree depth path).at? suffix >>= Json.own?) =
      (valueAt tree (path ++ suffix)).map exportDatum := by
  have below : FiniteFrom tree (path ++ suffix) := by
    intro more value found
    rw [List.append_assoc] at found
    exact finite _ value found
  by_cases valued : Valued tree (path ++ suffix)
  · rw [at?_exportTree rooted finite deep valued]
    exact own?_exportTree rooted below (deep_append deep suffix) free
  · have absent : valueAt tree (path ++ suffix) = none := by
      rw [← Option.not_isSome_iff_eq_none]
      exact fun there => valued ⟨[], by simpa using there⟩
    rw [at?_exportTree_of_not_valued rooted finite deep plain valued, absent]
    rfl

/-! ## Exports of keys -/

variable {network : Network} {key : Address}

/-- The values at and below a key are finite. -/
def FiniteBelow (network : Network) (key : Address) : Prop :=
  ∀ suffix value, network.value? (key.below suffix) = some value → value.isFinite = true

/-- Below a key the name of the own value names nothing that leads to a value. -/
def Plain (network : Network) (key : Address) : Prop :=
  ∀ suffix, ownValueSegment ∈ suffix → network.value? (key.below suffix) = none

def hasChildren (network : Network) (key : Address) : Bool :=
  ((network.tree? key.tree).map fun tree => !(tree.children key.path).isEmpty).getD false

/-- Where the value of a key below is exported: at its path, and under the name of the own value if
it has children. -/
def exportPlace (network : Network) (key : Address) (suffix : Path) : Path :=
  if network.hasChildren (key.below suffix) then suffix ++ [ownValueSegment] else suffix

theorem value?_below (live : network.tree? key.tree = some tree) (suffix : Path) :
    network.value? (key.below suffix) = valueAt tree (key.path ++ suffix) := by
  have cell : network.cell? (key.below suffix) = tree.cell? (key.path ++ suffix) :=
    cell?_at live _
  unfold value? valueAt
  rw [cell]

theorem value?_below_of_dead (dead : network.tree? key.tree = none) (suffix : Path) :
    network.value? (key.below suffix) = none := by
  simp [value?, cell?, Address.below, dead]

theorem exportKey_of_live (live : network.tree? key.tree = some tree) :
    network.exportKey key = exportTree tree (tree.keys.size + 1) key.path := by
  unfold exportKey
  rw [live]

theorem exportKey_of_dead (dead : network.tree? key.tree = none) :
    network.exportKey key = .null := by
  unfold exportKey
  rw [dead]

/-- A key is exported to a depth that none of its sub-tree reaches. -/
theorem deep_exportKey (tree : Tree) (path : Path) :
    (tree.subtree path).length ≤ tree.keys.size + 1 := by
  have bounded : (tree.subtree path).length ≤ tree.keys.toList.length := by
    rw [Tree.subtree_eq_filter]
    exact List.length_filter_le ..
  rw [Std.ExtTreeMap.length_toList] at bounded
  omega

theorem FiniteBelow.inTree (finite : network.FiniteBelow key)
    (live : network.tree? key.tree = some tree) : FiniteFrom tree key.path :=
  fun suffix value found => finite suffix value ((value?_below live suffix).trans found)

/-- An export holds the export of every key at or below which a value stands. -/
theorem at?_exportKey (rooted : network.Rooted) (finite : network.FiniteBelow key) {suffix : Path}
    (valued : ∃ below, (network.value? (key.below (suffix ++ below))).isSome = true) :
    (network.exportKey key).at? suffix = some (network.exportKey (key.below suffix)) := by
  obtain ⟨below, there⟩ := valued
  cases live : network.tree? key.tree with
  | none => simp [value?_below_of_dead live] at there
  | some tree =>
    rw [value?_below live, ← List.append_assoc] at there
    have lower : network.tree? (key.below suffix).tree = some tree := live
    rw [exportKey_of_live live, exportKey_of_live lower]
    exact at?_exportTree (rooted _ tree live) (finite.inTree live) (deep_exportKey tree key.path)
      ⟨below, there⟩

/-- The export of a key with a value holds it at its place, unless a child takes that. -/
theorem at?_exportKey_own (rooted : network.Rooted) {value : Datum}
    (finite : network.FiniteBelow key) (held : network.value? key = some value)
    (free : ∀ below, network.value? (key.below (ownValueSegment :: below)) = none) :
    (network.exportKey key).at? (network.exportPlace key []) = some (exportDatum value) := by
  have here : key.below [] = key := by simp [Address.below, Path.join]
  cases live : network.tree? key.tree with
  | none => simp [value?, cell?, live] at held
  | some tree =>
    rw [← here, value?_below live, List.append_nil] at held
    have branches : network.hasChildren key = !(tree.children key.path).isEmpty := by
      unfold hasChildren
      rw [live]
      rfl
    rw [exportKey_of_live live, exportPlace, here, branches]
    cases empty : (tree.children key.path).isEmpty with
    | true =>
      rw [if_neg (by simp), exportTree_of_no_children empty, held]
      rfl
    | false =>
      have unvalued : ¬Valued tree (key.path.child ownValueSegment) := by
        rintro ⟨more, there⟩
        rw [Path.child_append, ← value?_below live, free more] at there
        cases there
      have field := field?_exportTree_of_not_valued (rooted _ tree live) (finite.inTree live)
        (deep_exportKey tree key.path) empty unvalued
      rw [if_pos rfl, held] at field
      rw [if_pos (by simp), List.nil_append, Json.at?, field]
      rfl

theorem own?_at?_exportKey (rooted : network.Rooted) (finite : network.FiniteBelow key)
    (plain : network.Plain key) {suffix : Path} (proper : ownValueSegment ∉ suffix) :
    ((network.exportKey key).at? suffix >>= Json.own?) =
      (network.value? (key.below suffix)).map exportDatum := by
  cases live : network.tree? key.tree with
  | none =>
    rw [exportKey_of_dead live, value?_below_of_dead live]
    cases suffix <;> rfl
  | some tree =>
    have free : ¬Valued tree ((key.path ++ suffix).child ownValueSegment) := by
      rintro ⟨below, there⟩
      rw [Path.child_append, List.append_assoc, ← value?_below live, plain _ (by simp)] at there
      cases there
    rw [exportKey_of_live live, value?_below live]
    exact own?_at?_exportTree (rooted _ tree live) (finite.inTree live)
      (deep_exportKey tree key.path) proper free

/-- Equal exports come from equal values. -/
theorem value?_eq_of_exportKey_eq {other : Network} {otherKey : Address} (rooted : network.Rooted)
    (finite : network.FiniteBelow key) (plain : network.Plain key) (otherRooted : other.Rooted)
    (otherFinite : other.FiniteBelow otherKey) (otherPlain : other.Plain otherKey)
    (same : network.exportKey key = other.exportKey otherKey) (suffix : Path) :
    network.value? (key.below suffix) = other.value? (otherKey.below suffix) := by
  by_cases named : ownValueSegment ∈ suffix
  · rw [plain suffix named, otherPlain suffix named]
  · have read := own?_at?_exportKey rooted finite plain named
    rw [same, own?_at?_exportKey otherRooted otherFinite otherPlain named] at read
    cases held : network.value? (key.below suffix) with
    | none =>
      rw [held, Option.map_none, Option.map_eq_none_iff] at read
      exact read.symm
    | some value =>
      rw [held, Option.map_some, Option.map_eq_some_iff] at read
      obtain ⟨datum, found, exported⟩ := read
      rw [found, exportDatum_injective (otherFinite suffix datum found) (finite suffix value held)
        exported]

theorem FiniteBelow.below (finite : network.FiniteBelow key) (suffix : Path) :
    network.FiniteBelow (key.below suffix) := by
  intro more value found
  refine finite (suffix ++ more) value ?_
  rw [← found]
  simp [Address.below, Path.join]

/-- Of a network that was made by any changes, the export of a key holds the exports of the keys
below, as far as values stand there. It holds every value at its place, as long as none stands at or
below a child with the name of the own value. Without values under that name two exports are the
same only if the values are. -/
theorem exports_values {maxSteps : Nat} (reached : (empty maxSteps).Changes network)
    (finite : network.FiniteBelow key) :
    (∀ suffix, (∃ below, (network.value? (key.below (suffix ++ below))).isSome = true) →
      (network.exportKey key).at? suffix = some (network.exportKey (key.below suffix))) ∧
    (∀ suffix value, network.value? (key.below suffix) = some value →
      (∀ below, network.value? (key.below (suffix ++ ownValueSegment :: below)) = none) →
        (network.exportKey key).at? (network.exportPlace key suffix) =
          some (exportDatum value)) ∧
    ∀ (otherSteps : Nat) (other : Network) (otherKey : Address),
      (empty otherSteps).Changes other → other.FiniteBelow otherKey → network.Plain key →
        other.Plain otherKey → network.exportKey key = other.exportKey otherKey →
          ∀ suffix, network.value? (key.below suffix) = other.value? (otherKey.below suffix) := by
  have rooted : network.Rooted := ((mutual_empty maxSteps).changes reached).rooted
  refine ⟨fun suffix valued => at?_exportKey rooted finite valued, fun suffix value held free => ?_,
    fun otherSteps other otherKey otherReached otherFinite plain otherPlain same => ?_⟩
  · have lower (more : Path) : (key.below suffix).below more = key.below (suffix ++ more) := by
      simp [Address.below, Path.join]
    have own := at?_exportKey_own rooted (finite.below suffix) held
      fun below => (congrArg network.value? (lower _)).trans (free below)
    have place : network.exportPlace key suffix =
        suffix ++ network.exportPlace (key.below suffix) [] := by
      unfold exportPlace
      rw [lower, List.append_nil]
      split <;> simp
    rw [place, Json.at?_append,
      at?_exportKey rooted finite ⟨[], by rw [List.append_nil, held]; rfl⟩]
    exact own
  · exact value?_eq_of_exportKey_eq rooted finite plain
      ((mutual_empty otherSteps).changes otherReached).rooted otherFinite otherPlain same

/-! ## Names of keys -/

/-- A tree in which keys hold texts. -/
def exporting (texts : List (Path × String)) : Network :=
  texts.foldl (fun network entry => network.seed ⟨0, 0⟩ entry.1 (.text entry.2) false)
    ((empty 8).create .plain).2

def exportedKey : Address := ⟨⟨0, 0⟩, ["visual"]⟩

theorem changes_seed (network : Network) (handle : Handle) (path : Path) (value : Datum) :
    network.Changes (network.seed handle path value false) :=
  network.changes_ensureWith ⟨handle, path⟩ _ (fun _ => rfl) fun _ => rfl

theorem changes_exporting (texts : List (Path × String)) :
    (empty 8).Changes (exporting texts) := by
  have created : (empty 8).Changes ((empty 8).create .plain).2 := Change.once (.created .plain)
  unfold exporting
  generalize ((empty 8).create .plain).2 = network at created ⊢
  exact created.trans (chain_foldl id texts
    (fun entry _ (later : Network) => later.changes_seed ⟨0, 0⟩ entry.1 (.text entry.2)) network)

theorem forall_value? (check : Path → Datum → Bool)
    (all : (network.tree? key.tree).all (fun tree => tree.keys.toList.all fun entry =>
      entry.2.value.all (check entry.1)) = true) {suffix : Path} {value : Datum}
    (held : network.value? (key.below suffix) = some value) :
    check (key.path ++ suffix) value = true := by
  cases live : network.tree? key.tree with
  | none => simp [value?_below_of_dead live] at held
  | some tree =>
    rw [value?_below live] at held
    obtain ⟨cell, found, own⟩ := Option.bind_eq_some_iff.1 held
    rw [live, Option.all_some, List.all_eq_true] at all
    simpa [own] using all _ (Tree.mem_keys.2 found)

theorem finiteBelow_of_all (all : (network.tree? key.tree).all (fun tree =>
    tree.keys.toList.all fun entry => entry.2.value.all Datum.isFinite) = true) :
    network.FiniteBelow key :=
  fun _ _ held => forall_value? (fun _ => Datum.isFinite) all held

theorem plain_of_all (all : (network.tree? key.tree).all (fun tree =>
    tree.keys.toList.all fun entry => entry.2.value.all fun _ =>
      !entry.1.contains ownValueSegment) = true) : network.Plain key := by
  intro suffix named
  rw [Option.eq_none_iff_forall_ne_some]
  intro value held
  have proper := forall_value? (fun path _ => !path.contains ownValueSegment) all held
  simp [named] at proper

def nestedTexts : List (Path × String) :=
  [(["visual", "x"], "own"), (["visual", "x", "y"], "below")]

/-- A key without a value, next to others, adds nothing to an export. -/
theorem exports_values_nested :
    (exporting nestedTexts).value? (exportedKey.below ["x"]) = some (.text "own") ∧
    ((exporting nestedTexts).exportKey exportedKey).at? ["x", "_value"] = some (.string "own") ∧
    ∀ suffix, (exporting nestedTexts).value? (exportedKey.below suffix) =
      ((exporting nestedTexts).ensure (exportedKey.below ["z"])).value?
        (exportedKey.below suffix) := by
  have finite : (exporting nestedTexts).FiniteBelow exportedKey :=
    finiteBelow_of_all (by decide +kernel)
  have plain : (exporting nestedTexts).Plain exportedKey := plain_of_all (by decide +kernel)
  have free (below : Path) : (exporting nestedTexts).value?
      (exportedKey.below (["x"] ++ ownValueSegment :: below)) = none := plain _ (by simp)
  have exported : (exporting nestedTexts).exportKey exportedKey =
      .object [("x", .object [("_value", .string "own"), ("y", .string "below")])] := rfl
  have also : ((exporting nestedTexts).ensure (exportedKey.below ["z"])).exportKey exportedKey =
      .object [("x", .object [("_value", .string "own"), ("y", .string "below")])] := rfl
  obtain ⟨-, stored, same⟩ := exports_values (changes_exporting nestedTexts) finite
  have held : (exporting nestedTexts).value? (exportedKey.below ["x"]) = some (.text "own") := rfl
  refine ⟨held, stored ["x"] _ held free, same 8 _ exportedKey
    ((changes_exporting nestedTexts).tail (.ensure (exportedKey.below ["z"])))
    (finiteBelow_of_all (by decide +kernel)) plain (plain_of_all (by decide +kernel))
    (exported.trans also.symm)⟩

/-- A child bears the name of the own value. -/
def shadowedTexts : List (Path × String) :=
  [(["visual", "x"], "own"), (["visual", "x", "_value"], "below")]

/-- A key holds a value and has a child without one. -/
def ownNetwork : Network :=
  (exporting [(["visual", "x"], "same")]).ensure (exportedKey.below ["x", "y"])

/-- A key holds no value but has a child that bears the name of the own value. -/
def childNetwork : Network := exporting [(["visual", "x", "_value"], "same")]

/-- A child that bears the name of the own value replaces it, and where there is no own value stands
in for it. -/
theorem not_forall_exports :
    (¬∀ (network : Network) (key : Address) (suffix : Path) (value : Datum),
      (empty 8).Changes network → network.FiniteBelow key →
        network.value? (key.below suffix) = some value →
          (network.exportKey key).at? (network.exportPlace key suffix) =
            some (exportDatum value)) ∧
    ¬∀ (network other : Network) (key : Address), (empty 8).Changes network →
      (empty 8).Changes other → network.FiniteBelow key → other.FiniteBelow key →
        network.exportKey key = other.exportKey key →
          ∀ suffix, network.value? (key.below suffix) = other.value? (key.below suffix) := by
  constructor
  · intro exported
    have place := exported (exporting shadowedTexts) exportedKey ["x"] (.text "own")
      (changes_exporting _) (finiteBelow_of_all (by decide +kernel)) rfl
    have below : (exporting shadowedTexts).exportPlace exportedKey ["x"] = ["x", "_value"] := rfl
    have replaced : ((exporting shadowedTexts).exportKey exportedKey).at? ["x", "_value"] =
        some (.string "below") := rfl
    rw [below, replaced] at place
    simp [exportDatum] at place
  · intro injective
    have own : ownNetwork.exportKey exportedKey =
        .object [("x", .object [("_value", .string "same")])] := rfl
    have child : childNetwork.exportKey exportedKey =
        .object [("x", .object [("_value", .string "same")])] := rfl
    have same := injective ownNetwork childNetwork exportedKey
      ((changes_exporting _).tail (.ensure _)) (changes_exporting _)
      (finiteBelow_of_all (by decide +kernel)) (finiteBelow_of_all (by decide +kernel))
      (own.trans child.symm) ["x"]
    have held : ownNetwork.value? (exportedKey.below ["x"]) = some (.text "same") := rfl
    have bare : childNetwork.value? (exportedKey.below ["x"]) = none := rfl
    rw [held, bare] at same
    cases same

end Propagation.Network

end ConceptLaws
