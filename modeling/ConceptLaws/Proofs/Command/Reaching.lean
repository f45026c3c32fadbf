import ConceptLaws.Proofs.Catalog.Naming
import ConceptLaws.Proofs.Relation.Forest

/-! What references reach.
One step leads from an entity along the links that its selector stands for, to those that its filter
admits; the steps of a reference are composed. As long as the names of all filters are unambiguous,
what is reached are the ends of all these ways, each listed once. -/

namespace ConceptLaws

/-! ## Ways -/

/-- An entity names another one on a side. -/
def Relation.LinksOn (relation : Relation) (side : Side) (child parent : EntityId) : Prop :=
  ∃ entity, relation.get? child = some entity ∧ entity.parent side = some parent

namespace Command

/-- Where a selector leads; with `swapped`, the sides of the first two links are exchanged. -/
def Selector.Hops (relation : Relation) (swapped : Bool) :
    Selector → EntityId → EntityId → Prop
  | .current, start, target => target = start
  | .head, start, target => relation.LinksOn (if swapped then .reference else .head) start target
  | .reference, start, target =>
    relation.LinksOn (if swapped then .head else .reference) start target
  | .children, start, target => relation.LinksOn .head target start

/-- The entity is called by the name of the filter, or, if that is negated, it is not. -/
def ConceptFilter.Admits (filter : ConceptFilter) (relation : Relation) (catalog : Catalog)
    (id : EntityId) : Prop :=
  ∃ entity, relation.get? id = some entity ∧
    (catalog.IsCalled entity.concept filter.concept ↔ filter.negated = false)

/-- One step from an entity to another one that is there. -/
structure Step.Leads (step : Step) (relation : Relation) (catalog : Catalog) (swapped : Bool)
    (start target : EntityId) : Prop where
  hops : step.selector.Hops relation swapped start target
  present : relation.contains target = true
  admitted : ∀ filter ∈ step.filter, filter.Admits relation catalog target

/-- All steps in order. -/
def Leads (relation : Relation) (catalog : Catalog) (swapped : Bool) :
    List Step → EntityId → EntityId → Prop
  | [], start, target => target = start
  | step :: rest, start, target => ∃ middle, step.Leads relation catalog swapped start middle ∧
      Leads relation catalog swapped rest middle target

/-! ## Steps -/

theorem mem_children {relation : Relation} (named : relation.Named) {side : Side}
    {child parent : EntityId} :
    child ∈ relation.children parent side ↔ relation.LinksOn side child parent := by
  unfold Relation.children Relation.LinksOn
  simp only [List.mem_map, List.mem_filter, beq_iff_eq]
  constructor
  · rintro ⟨entity, ⟨listed, linked⟩, rfl⟩
    obtain ⟨id, found⟩ := mem_values.1 listed
    exact ⟨entity, named id entity found ▸ found, linked⟩
  · rintro ⟨entity, found, linked⟩
    exact ⟨entity, ⟨mem_values.2 ⟨child, found⟩, linked⟩, named child entity found⟩

theorem mem_linked {relation : Relation} {side : Side} {start target : EntityId} :
    target ∈ (relation.get? start >>= (Entity.parent · side)).toList ↔
      relation.LinksOn side start target := by
  rw [Option.mem_toList]
  exact Option.bind_eq_some_iff

theorem Selector.mem_reach {relation : Relation} (named : relation.Named) (selector : Selector)
    (swapped : Bool) {start target : EntityId} :
    target ∈ (if swapped then selector.swapped else selector).reach relation start ↔
      selector.Hops relation swapped start target := by
  cases selector with
  | current =>
    cases swapped with
    | false => exact List.mem_singleton
    | true => exact List.mem_singleton
  | head =>
    cases swapped with
    | false => exact @mem_linked relation .head start target
    | true => exact @mem_linked relation .reference start target
  | reference =>
    cases swapped with
    | false => exact @mem_linked relation .reference start target
    | true => exact @mem_linked relation .head start target
  | children =>
    cases swapped with
    | false => exact mem_children named
    | true => exact mem_children named

/-- What a link leads to is there. -/
theorem Selector.Hops.present {relation : Relation} (forest : relation.Forest) {swapped : Bool}
    {selector : Selector} {start target : EntityId} (there : relation.contains start = true)
    (hops : selector.Hops relation swapped start target) : relation.contains target = true := by
  have parent {side : Side} (linked : relation.LinksOn side start target) :
      relation.contains target = true := by
    obtain ⟨entity, found, link⟩ := linked
    refine forest.grounded ⟨entity, found, ?_⟩
    unfold Entity.parents
    cases side with
    | head => exact List.mem_append_left _ (Option.mem_toList.2 link)
    | reference => exact List.mem_append_right _ (Option.mem_toList.2 link)
  cases selector with
  | current => exact hops ▸ there
  | head => exact parent hops
  | reference => exact parent hops
  | children =>
    obtain ⟨entity, found, -⟩ := hops
    exact Relation.contains_iff.2 ⟨entity, found⟩

variable {relation : Relation} {catalog : Catalog}

theorem ConceptFilter.keeps_iff {filter : ConceptFilter} {id : EntityId} (valid : catalog.Valid)
    (clear : catalog.Unambiguous filter.concept) :
    filter.keeps relation catalog id = true ↔ filter.Admits relation catalog id := by
  unfold keeps Admits
  cases relation.get? id with
  | none => simp
  | some entity =>
    simp only [← valid.instanceOfNamed_of_unambiguous clear, Option.some.injEq, exists_eq_left']
    cases catalog.instanceOfNamed entity.concept filter.concept <;> cases filter.negated <;> decide

theorem Step.keeps_iff {step : Step} {id : EntityId} (valid : catalog.Valid)
    (clear : ∀ filter ∈ step.filter, catalog.Unambiguous filter.concept) :
    step.keeps relation catalog id = true ↔
      ∀ filter ∈ step.filter, filter.Admits relation catalog id := by
  unfold keeps
  cases found : step.filter with
  | none => simp
  | some filter =>
    simp only [Option.mem_def, Option.some.injEq, forall_eq']
    exact ConceptFilter.keeps_iff valid (clear filter found)

theorem Step.mem_reach {step : Step} {swapped : Bool} {ids : List EntityId} {target : EntityId}
    (forest : relation.Forest) (valid : catalog.Valid)
    (clear : ∀ filter ∈ step.filter, catalog.Unambiguous filter.concept)
    (there : ∀ id ∈ ids, relation.contains id = true) :
    target ∈ step.reach relation catalog swapped ids ↔
      ∃ start ∈ ids, step.Leads relation catalog swapped start target := by
  unfold reach
  rw [List.mem_eraseDups, List.mem_filter, List.mem_flatMap, Step.keeps_iff valid clear]
  simp only [Selector.mem_reach forest.named]
  constructor
  · rintro ⟨⟨start, member, hops⟩, admitted⟩
    exact ⟨start, member, hops, hops.present forest (there start member), admitted⟩
  · rintro ⟨start, member, leads⟩
    exact ⟨⟨start, member, leads.hops⟩, leads.admitted⟩

/-! ## References -/

/-- Steps from several entities reach what some way leads to from one of them. -/
theorem mem_foldl_reach {swapped : Bool} {steps : List Step} {target : EntityId}
    (forest : relation.Forest) (valid : catalog.Valid)
    (clear : ∀ step ∈ steps, ∀ filter ∈ step.filter, catalog.Unambiguous filter.concept)
    {ids : List EntityId} (there : ∀ id ∈ ids, relation.contains id = true) :
    target ∈ steps.foldl (fun ids step => step.reach relation catalog swapped ids) ids ↔
      ∃ start ∈ ids, Leads relation catalog swapped steps start target := by
  induction steps generalizing ids with
  | nil => simp [Leads]
  | cons step rest ih =>
    obtain ⟨here, later⟩ := List.forall_mem_cons.1 clear
    have reached (middle : EntityId) :=
      @Step.mem_reach _ _ _ swapped _ middle forest valid here there
    rw [List.foldl_cons, ih later fun id member => by
      obtain ⟨start, -, leads⟩ := (reached id).1 member
      exact leads.present]
    simp only [reached, Leads]
    constructor
    · rintro ⟨middle, ⟨start, member, leads⟩, onwards⟩
      exact ⟨start, member, middle, leads, onwards⟩
    · rintro ⟨start, member, middle, leads, onwards⟩
      exact ⟨middle, ⟨start, member, leads⟩, onwards⟩

theorem Leads.present {swapped : Bool} {steps : List Step} {start target : EntityId}
    (there : relation.contains start = true)
    (leads : Leads relation catalog swapped steps start target) :
    relation.contains target = true := by
  induction steps generalizing start with
  | nil => exact leads ▸ there
  | cons step rest ih =>
    obtain ⟨middle, first, onwards⟩ := leads
    exact ih first.present onwards

theorem nodup_foldl_reach {swapped : Bool} {steps : List Step} {ids : List EntityId}
    (unique : ids.Nodup) :
    (steps.foldl (fun ids step => step.reach relation catalog swapped ids) ids).Nodup := by
  induction steps generalizing ids with
  | nil => exact unique
  | cons step rest ih => exact ih (nodup_eraseDups _)

/-- A reference reaches exactly what its steps lead to, each entity once, if the names of its
filters are unambiguous; and exactly for such names do filters agree with precedence. -/
theorem Reference.reach_exact (forest : relation.Forest) (valid : catalog.Valid)
    {reference : Reference} {steps : List Step} (nodes : reference.base = .nodes steps)
    {owner : EntityId} (there : relation.contains owner = true)
    (clear : ∀ step ∈ steps, ∀ filter ∈ step.filter, catalog.Unambiguous filter.concept)
    (swapped : Bool) :
    (reference.reach relation catalog owner swapped).Nodup ∧
    (∀ id, id ∈ reference.reach relation catalog owner swapped ↔
      relation.contains id = true ∧ Leads relation catalog swapped steps owner id) ∧
    ∀ name, catalog.Unambiguous name ↔ ∀ concept, catalog.instanceOfNamed concept name =
      (catalog.precedence? concept [[name]]).isSome := by
  unfold reach
  rw [nodes]
  refine ⟨nodup_foldl_reach (List.nodup_singleton _), fun id => ?_, fun name =>
    valid.unambiguous_iff⟩
  have single : ∀ id ∈ [owner], relation.contains id = true := by simpa using there
  refine (mem_foldl_reach forest valid clear single).trans ?_
  simp only [List.mem_singleton, exists_eq_left]
  exact (and_iff_right_of_imp (Leads.present there)).symm

/-! ## Concepts of one name -/

def markDefinition (parents : List ConceptId) : Definition where
  concepts := [⟨⟨1⟩, "mark", [], ∅, none, false⟩, ⟨⟨2⟩, "mark", parents, ∅, none, false⟩,
    ⟨⟨3⟩, "point", [], ∅, none, false⟩]
  laws := []

/-- Two concepts have one name; the second one may inherit from the first one. -/
def markCatalog (parents : List ConceptId) : Catalog where
  definition := markDefinition parents
  lineages := ((∅ : Std.ExtTreeMap ConceptId (List ConceptId)).insert ⟨1⟩ [⟨1⟩]).insert ⟨2⟩
    (parents ++ [⟨2⟩]) |>.insert ⟨3⟩ [⟨3⟩]
  fingerprint := Fingerprint.ofContent Fingerprint.catalogDomain (markDefinition parents).toCbor

/-- A point and three entities below it: one of each concept. -/
def markRecords : List EntityRecord :=
  [⟨⟨1⟩, ⟨3⟩, none, none, .empty, none⟩, ⟨⟨2⟩, ⟨1⟩, some ⟨1⟩, none, .empty, none⟩,
    ⟨⟨3⟩, ⟨2⟩, some ⟨1⟩, none, .empty, none⟩, ⟨⟨4⟩, ⟨3⟩, some ⟨1⟩, none, .empty, none⟩]

def marks (parents : List ConceptId) : Relation :=
  (Relation.ofRecords markRecords (markCatalog parents)).toOption.getD .empty

/-- The marks below an entity. -/
def marksBelow : Reference := ⟨.nodes [⟨.children, some ⟨"mark", false⟩⟩], [], false, none⟩

/-- Where the second concept inherits from the first one, marks of both are reached. -/
theorem reach_exact_marks :
    marksBelow.reach (marks [⟨1⟩]) (markCatalog [⟨1⟩]) ⟨1⟩ false = [⟨2⟩, ⟨3⟩] ∧
    (∀ id : EntityId, id ∈ [(⟨2⟩ : EntityId), ⟨3⟩] ↔ (marks [⟨1⟩]).contains id = true ∧
      Leads (marks [⟨1⟩]) (markCatalog [⟨1⟩]) false [⟨.children, some ⟨"mark", false⟩⟩] ⟨1⟩ id) ∧
    ∀ concept, (markCatalog [⟨1⟩]).instanceOfNamed concept "mark" =
      ((markCatalog [⟨1⟩]).precedence? concept [["mark"]]).isSome := by
  have valid : (markCatalog [⟨1⟩]).Valid := ⟨markDefinition [⟨1⟩], rfl⟩
  have built : Relation.ofRecords markRecords (markCatalog [⟨1⟩]) = .ok (marks [⟨1⟩]) := rfl
  have forest := Relation.forest_ofRecords built
  have clear : (markCatalog [⟨1⟩]).Unambiguous "mark" := by
    intro concept member named
    refine ⟨⟨⟨1⟩, "mark", [], ∅, none, false⟩, rfl, ?_⟩
    change concept ∈ (markDefinition [⟨1⟩]).concepts at member
    simp only [markDefinition, List.mem_cons, List.not_mem_nil, or_false] at member
    rcases member with rfl | rfl | rfl
    · exact .refl
    · exact .single ⟨_, List.mem_cons_of_mem _ List.mem_cons_self, rfl, List.mem_cons_self⟩
    · exact absurd named (by decide)
  have reached : marksBelow.reach (marks [⟨1⟩]) (markCatalog [⟨1⟩]) ⟨1⟩ false = [⟨2⟩, ⟨3⟩] := by
    decide +kernel
  obtain ⟨-, exact, names⟩ := Reference.reach_exact forest valid
    (rfl : marksBelow.base = .nodes [⟨.children, some ⟨"mark", false⟩⟩])
    (by decide +kernel : (marks [⟨1⟩]).contains ⟨1⟩ = true) (by simpa using clear) false
  rw [reached] at exact
  exact ⟨reached, exact, (names "mark").1 clear⟩

/-- Where it does not, its marks are left out. -/
theorem not_forall_reach :
    ¬∀ (relation : Relation) (catalog : Catalog) (reference : Reference) (steps : List Step)
      (owner id : EntityId), relation.Forest → catalog.Valid → reference.base = .nodes steps →
        relation.contains owner = true → relation.contains id = true →
          Leads relation catalog false steps owner id →
            id ∈ reference.reach relation catalog owner false := by
  intro all
  have valid : (markCatalog []).Valid := ⟨markDefinition [], rfl⟩
  have built : Relation.ofRecords markRecords (markCatalog []) = .ok (marks []) := rfl
  have forest := Relation.forest_ofRecords built
  have reached : ⟨3⟩ ∉ marksBelow.reach (marks []) (markCatalog []) ⟨1⟩ false := by
    decide +kernel
  have there : (marks []).contains ⟨3⟩ = true := by decide +kernel
  have hops : Selector.children.Hops (marks []) false ⟨1⟩ ⟨3⟩ :=
    (Selector.mem_reach forest.named .children false).1 (by decide +kernel)
  have called : (markCatalog []).IsCalled ⟨2⟩ "mark" :=
    ⟨_, List.mem_cons_of_mem _ List.mem_cons_self, rfl, .refl⟩
  obtain ⟨entity, found, concept⟩ : ∃ entity, (marks []).get? ⟨3⟩ = some entity ∧
      entity.concept = ⟨2⟩ := Option.map_eq_some_iff.1 (by decide +kernel)
  refine reached (all (marks []) (markCatalog []) marksBelow _ ⟨1⟩ ⟨3⟩ forest valid rfl
    (by decide +kernel) there ⟨⟨3⟩, ⟨hops, there, fun filter given => ?_⟩, rfl⟩)
  obtain rfl := Option.some.inj given
  exact ⟨entity, found, iff_of_true (concept ▸ called) rfl⟩

end Command

end ConceptLaws
