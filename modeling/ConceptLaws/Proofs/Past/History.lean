import ConceptLaws.Proofs.Past.Resolution
import ConceptLaws.Proofs.Propagation.Agenda
import ConceptLaws.Proofs.Session.Tidiness

/-! Resolving whatever went before.
A session whose trees are tidy resolves an attribute as a new session over the same records does. -/

namespace ConceptLaws

open Propagation

namespace Session

/-- The data of every entity, its symbol and what is exported of it are the same. -/
structure SameAnswers (session other : Session) : Prop where
  entities : other.trees.keys = session.trees.keys
  fields : ∀ id path, other.field? id path = session.field? id path
  values : ∀ id path, (other.dataKey? id path >>= other.network.value?) =
    (session.dataKey? id path >>= session.network.value?)
  symbols : ∀ id, other.symbol? id = session.symbol? id
  exports : ∀ id path, (other.dataKey? id path).map other.network.exportKey =
    (session.dataKey? id path).map session.network.exportKey

variable {session aged : Session} {past : Past}

theorem Mirrors.dataKey? (mirrors : Mirrors past session aged) (id : EntityId) (path : Path) :
    aged.dataKey? id path = (session.dataKey? id path).map past.key := by
  unfold Session.dataKey?
  rw [mirrors.trees, Std.ExtTreeMap.getElem?_map, Option.map_map, Option.map_map]
  rfl

theorem Mirrors.sameAnswers (mirrors : Mirrors past session aged) : session.SameAnswers aged where
  entities := by rw [mirrors.trees, Std.ExtTreeMap.keys_map]
  fields id path := by
    simp only [Session.field?, mirrors.dataKey?, mirrors.network]
    cases session.dataKey? id path <;> simp
  values id path := by
    simp only [mirrors.dataKey?, mirrors.network]
    cases session.dataKey? id path <;> simp
  symbols id := by
    simp only [Session.symbol?, mirrors.trees, mirrors.network, Std.ExtTreeMap.getElem?_map]
    cases session.trees[id]? <;> simp [Past.entityTrees]
  exports id path := by
    simp only [mirrors.dataKey?, mirrors.network, Option.map_map, Function.comp_def,
      Past.exportKey_network]

/-- The cleared network of a tidy session is a new one with a past. -/
theorem Steady.network_clear (steady : session.Steady) {count : Nat}
    (tidy : session.network.trees.Tidy count) :
    (Past.ofArena session.network.trees.clear).network (.empty session.settings.maxCascadeSteps) =
      session.network.clear := by
  have trees := Past.arena_empty (Past.ofArena session.network.trees.clear).tree tidy.clear
  have agenda := (Past.ofArena session.network.trees.clear).empty_agenda
  obtain ⟨limit, noted⟩ := steady
  unfold Past.network Network.clear Network.empty
  simp only [trees, agenda, limit, noted]

/-- The trees of a tidy session, cleared, are those of a new one with a past. -/
theorem Steady.ages_clearTrees (steady : session.Steady) {count : Nat}
    (tidy : session.network.trees.Tidy count) {relation : Relation}
    (same : session.relation.SameRecords relation) :
    Ages (Past.ofArena session.network.trees.clear)
      { ofRelation session.catalog session.settings relation with
        inferred := session.inferred }.clearTrees session.clearTrees where
  network := (steady.network_clear tidy).symm
  trees := by
    apply Std.ExtTreeMap.ext_getElem?
    intro id
    simp [clearTrees]
  sound := Network.sound_empty _
  catalog := rfl
  settings := rfl
  inferred := rfl
  records := same

/-- What resolving an attribute answers depends on the catalog, the settings, the records and the
inferred commands alone, as long as the trees of the session are tidy. -/
theorem Reachable.sameAnswers_resolve {catalogs : List Catalog} {session fresh : Session}
    {records : List EntityRecord} (reached : Reachable catalogs session)
    (tidy : session.network.Tidy)
    (made : Session.ofRecords session.catalog session.settings records = .ok fresh)
    (same : session.relation.SameRecords fresh.relation) (name : String) :
    (session.resolve name).1 = ({ fresh with inferred := session.inferred }.resolve name).1 ∧
      ({ fresh with inferred := session.inferred }.resolve name).2.SameAnswers
        (session.resolve name).2 := by
  obtain ⟨relation, -, rfl⟩ := ofRecords_eq_ok made
  obtain ⟨count, tidy⟩ := tidy
  obtain ⟨counts, mirrors⟩ := (reached.steady.ages_clearTrees tidy same).resolve name
  exact ⟨counts, mirrors.sameAnswers⟩

/-! ## Two commands for one key -/

/-- Two concepts; both commands of the first one write the same key. -/
def rivalDefinition : Definition where
  concepts := [⟨⟨1⟩, "c", [], (∅ : Std.ExtTreeMap String (List String)).insert "a"
      ["a = \x7b\x7bconcept.name\x7d\x7d", "a = \x7b\x7bA.concept.name\x7d\x7d"], none, false⟩,
    ⟨⟨2⟩, "d", [], ∅, none, false⟩]
  laws := []

def rivalCatalog : Catalog where
  definition := rivalDefinition
  lineages := (∅ : Std.ExtTreeMap ConceptId (List ConceptId)).insertMany
    [((⟨1⟩ : ConceptId), [(⟨1⟩ : ConceptId)]), (⟨2⟩, [⟨2⟩])]
  fingerprint := Fingerprint.ofContent Fingerprint.catalogDomain rivalDefinition.toCbor

theorem valid_rivalCatalog : rivalCatalog.Valid := by
  have concepts : rivalDefinition.checkConcepts = .ok () := rfl
  have lineages : rivalDefinition.lineages = .ok rivalCatalog.lineages := rfl
  have laws : rivalDefinition.checkLaws [] [] rivalDefinition.laws = .ok () := rfl
  refine ⟨rivalDefinition, ?_⟩
  unfold Catalog.ofDefinition
  rw [concepts, lineages, laws]
  rfl

def freshOf (records : List EntityRecord) : Session :=
  ofRelation rivalCatalog .standard ((Relation.ofRecords records rivalCatalog).toOption.getD .empty)

/-- An entity with the commands, the one at its head, and a third one. -/
def rivalRecords : List EntityRecord :=
  [⟨⟨1⟩, ⟨2⟩, none, none, .empty, none⟩, ⟨⟨2⟩, ⟨1⟩, some ⟨1⟩, none, .empty, none⟩,
    ⟨⟨3⟩, ⟨2⟩, none, none, .empty, none⟩]

def resolvedRivals : Session := ((freshOf rivalRecords).resolve "b").2

/-- After a first resolution the slots of all trees are in use. -/
theorem sameAnswers_resolve_rivals : resolvedRivals.network.trees.slots.size = 6 ∧
    (resolvedRivals.resolve "a").1 =
      ({ freshOf rivalRecords with inferred := resolvedRivals.inferred }.resolve "a").1 ∧
    ({ freshOf rivalRecords with inferred := resolvedRivals.inferred }.resolve "a").2.SameAnswers
      (resolvedRivals.resolve "a").2 := by
  have made : Session.ofRecords rivalCatalog .standard rivalRecords = .ok (freshOf rivalRecords) :=
    rfl
  have reached : Reachable [rivalCatalog, rivalCatalog] resolvedRivals :=
    (Reachable.ofRecords valid_rivalCatalog made).step (.resolve "b")
  have tidy : resolvedRivals.network.Tidy :=
    ((Growing.ofRecords made).step (.resolve "b") fun _ => id).tidy
  have again : Session.ofRecords resolvedRivals.catalog resolvedRivals.settings rivalRecords =
      .ok (freshOf rivalRecords) := rfl
  refine ⟨by decide +kernel, ?_⟩
  exact reached.sameAnswers_resolve tidy again (fun _ => rfl) "a"

/-- The first entity without commands is gone; its slots are the next ones, the later one first. -/
def agedRivals : Session :=
  ((resolvedRivals.remove ⟨3⟩).toOption.map Prod.snd).getD resolvedRivals

/-- The records that are left. -/
def remainingRecords : List EntityRecord :=
  [⟨⟨1⟩, ⟨2⟩, none, none, .empty, none⟩, ⟨⟨2⟩, ⟨1⟩, some ⟨1⟩, none, .empty, none⟩]

theorem reachable_agedRivals :
    Reachable [rivalCatalog, rivalCatalog, rivalCatalog] agedRivals := by
  have made : Session.ofRecords rivalCatalog .standard rivalRecords = .ok (freshOf rivalRecords) :=
    rfl
  have reached : Reachable [rivalCatalog, rivalCatalog] resolvedRivals :=
    (Reachable.ofRecords valid_rivalCatalog made).step (.resolve "b")
  have removes : (resolvedRivals.remove ⟨3⟩).toOption.isSome = true := by decide +kernel
  have catalog : agedRivals.catalog = rivalCatalog := rfl
  cases done : resolvedRivals.remove ⟨3⟩ with
  | error fault => simp [done, Except.toOption] at removes
  | ok result =>
    obtain ⟨removed, later⟩ := result
    have same : agedRivals = later := by
      rw [agedRivals, done]
      rfl
    have reachedLater := reached.step (.remove done)
    rwa [← same, catalog] at reachedLater

/-- The second command has the lower slot, so the first one writes last. -/
theorem display_agedRivals :
    ((agedRivals.resolve "a").2.dataKey? ⟨2⟩ ["a"] >>=
      (agedRivals.resolve "a").2.network.value?).map Datum.display = some "c" := by
  simp only [resolve, activateAll, Network.activate_eq, Network.settle_eq]
  decide +kernel

/-- In a new session the second command writes last. -/
theorem display_freshRivals :
    (((freshOf remainingRecords).resolve "a").2.dataKey? ⟨2⟩ ["a"] >>=
      ((freshOf remainingRecords).resolve "a").2.network.value?).map Datum.display = some "d" := by
  simp only [resolve, activateAll, Network.activate_eq, Network.settle_eq]
  decide +kernel

/-- Without tidy trees a session may answer otherwise than a new one. -/
theorem not_forall_sameAnswers : ¬ ∀ (catalogs : List Catalog) (session fresh : Session)
    (records : List EntityRecord), Reachable catalogs session →
    Session.ofRecords session.catalog session.settings records = .ok fresh →
    session.relation.SameRecords fresh.relation → ∀ name,
    ({ fresh with inferred := session.inferred }.resolve name).2.SameAnswers
      (session.resolve name).2 := by
  intro always
  have made : Session.ofRecords agedRivals.catalog agedRivals.settings remainingRecords =
      .ok (freshOf remainingRecords) := rfl
  have faithful : Catalog.Faithful [rivalCatalog, rivalCatalog, rivalCatalog] := by
    intro catalog member other later _
    have first : catalog = rivalCatalog := by simpa using member
    have second : other = rivalCatalog := by simpa using later
    rw [first, second]
    exact rivalCatalog.agrees_refl
  have built : Relation.ofRecords remainingRecords rivalCatalog =
      .ok (freshOf remainingRecords).relation := rfl
  have same : agedRivals.relation.SameRecords (freshOf remainingRecords).relation :=
    Relation.sameRecords_of_toRecords (reachable_agedRivals.grounded faithful).named
      (Relation.named_ofRecords built) rfl
  have answers := always _ agedRivals (freshOf remainingRecords) remainingRecords
    reachable_agedRivals made same "a"
  have shown := congrArg (Option.map Datum.display) (answers.values ⟨2⟩ ["a"])
  have fresh : { freshOf remainingRecords with inferred := agedRivals.inferred } =
      freshOf remainingRecords := rfl
  rw [fresh, display_agedRivals, display_freshRivals] at shown
  simp at shown

end Session

end ConceptLaws
