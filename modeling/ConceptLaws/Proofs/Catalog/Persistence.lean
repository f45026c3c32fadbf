import ConceptLaws.Proofs.Catalog.Consistency
import ConceptLaws.Proofs.Cbor.RoundTrip
import ConceptLaws.Proofs.Document
import ConceptLaws.Proofs.Payload.Reading

/-! Catalogs read back from their bytes.
The document of a definition tells every field, values by their texts. Read back it is the same
definition up to the signs of zeros in values, which no check looks at; so it is accepted again, and
has the same bytes and the same fingerprint. Definitions with the same bytes differ in no field. -/

namespace ConceptLaws

theorem forall₂_iff_map_eq {α β : Type} {alike : α → α → Prop} {told : α → β}
    (iff : ∀ left right : α, alike left right ↔ told left = told right) {left right : List α} :
    List.Forall₂ alike left right ↔ left.map told = right.map told := by
  have same : alike = fun left right => told left = told right :=
    funext fun left => funext fun right => propext (iff left right)
  rw [same, ← List.forall₂_eq_eq_eq, List.forall₂_map_left_iff, List.forall₂_map_right_iff]

/-! ## Definitions without the signs of zeros -/

namespace LawNode

/-- Equality of all fields, with values up to the signs of zeros. -/
structure Alike (left right : LawNode) : Prop where
  id : left.id = right.id
  concept : left.concept = right.concept
  head : left.head = right.head
  reference : left.reference = right.reference
  value : left.value.Alike right.value
  text : left.value.display = right.value.display
  name : left.name = right.name
  formula : left.formula = right.formula

def unsigned (node : LawNode) : LawNode := { node with value := node.value.unsigned }

theorem alike_iff (left right : LawNode) :
    left.Alike right ↔ left.unsigned = right.unsigned := by
  obtain ⟨id, concept, head, reference, value, name, formula⟩ := left
  obtain ⟨id', concept', head', reference', value', name', formula'⟩ := right
  simp only [unsigned, mk.injEq, ← Payload.alike_iff]
  constructor
  · rintro ⟨rfl, rfl, rfl, rfl, value, -, rfl, rfl⟩
    exact ⟨rfl, rfl, rfl, rfl, value, rfl, rfl⟩
  · rintro ⟨rfl, rfl, rfl, rfl, value, rfl, rfl⟩
    refine ⟨rfl, rfl, rfl, rfl, value, ?_, rfl, rfl⟩
    rw [← Payload.display_unsigned, (Payload.alike_iff _ _).1 value, Payload.display_unsigned]

theorem alike_unsigned (node : LawNode) : node.unsigned.Alike node :=
  ⟨rfl, rfl, rfl, rfl, node.value.alike_unsigned, node.value.display_unsigned, rfl, rfl⟩

end LawNode

namespace Law

structure Alike (left right : Law) : Prop where
  id : left.id = right.id
  name : left.name = right.name
  nodes : List.Forall₂ LawNode.Alike left.nodes right.nodes
  predicateSets : left.predicateSets = right.predicateSets
  deepNodes : left.deepNodes = right.deepNodes

def unsigned (law : Law) : Law := { law with nodes := law.nodes.map LawNode.unsigned }

theorem alike_iff (left right : Law) : left.Alike right ↔ left.unsigned = right.unsigned := by
  obtain ⟨id, name, nodes, predicateSets, deepNodes⟩ := left
  obtain ⟨id', name', nodes', predicateSets', deepNodes'⟩ := right
  simp only [unsigned, mk.injEq, ← forall₂_iff_map_eq LawNode.alike_iff]
  constructor
  · rintro ⟨id, name, nodes, sets, deep⟩
    exact ⟨id, name, nodes, sets, deep⟩
  · rintro ⟨id, name, nodes, sets, deep⟩
    exact ⟨id, name, nodes, sets, deep⟩

theorem alike_unsigned (law : Law) : law.unsigned.Alike law where
  id := rfl
  name := rfl
  nodes := List.forall₂_map_left_iff.2 (List.forall₂_same.2 fun node _ => node.alike_unsigned)
  predicateSets := rfl
  deepNodes := rfl

end Law

namespace Definition

/-- Equality of all fields, with the values of nodes up to the signs of zeros. -/
structure Alike (left right : Definition) : Prop where
  concepts : left.concepts = right.concepts
  laws : List.Forall₂ Law.Alike left.laws right.laws

def unsigned (definition : Definition) : Definition :=
  { definition with laws := definition.laws.map Law.unsigned }

theorem alike_iff (left right : Definition) :
    left.Alike right ↔ left.unsigned = right.unsigned := by
  obtain ⟨concepts, laws⟩ := left
  obtain ⟨concepts', laws'⟩ := right
  simp only [unsigned, mk.injEq, ← forall₂_iff_map_eq Law.alike_iff]
  constructor
  · rintro ⟨concepts, laws⟩
    exact ⟨concepts, laws⟩
  · rintro ⟨concepts, laws⟩
    exact ⟨concepts, laws⟩

theorem alike_unsigned (definition : Definition) : definition.unsigned.Alike definition where
  concepts := rfl
  laws := List.forall₂_map_left_iff.2 (List.forall₂_same.2 fun law _ => law.alike_unsigned)

end Definition

/-! ## Reading fields

Values are told by their texts, so they come back without the signs of zeros; everything else comes
back as it is. -/

section

open Document

theorem Concept.ofDocument?_toDocument (concept : Concept) :
    ofDocument? concept.toDocument = some concept := by
  have fields : fields? ["id", "name", "parents", "commands", "symbol", "symmetric"]
      concept.toDocument = some ⟨[("id", .natural concept.id.toNat),
        ("name", .text concept.name),
        ("parents", .list (concept.parents.map fun id => .natural id.toNat)),
        ("commands", .record (concept.commands.toList.map fun entry =>
          (.named entry.1, .list (entry.2.map .text)))),
        ("symbol", (concept.symbol.map Document.text).getD .null),
        ("symmetric", .bool concept.symmetric)]⟩ :=
    fields?_record rfl (by simp) (by simp)
  simp [ofDocument?, fields, Fields.required?, Fields.default?, List.lookup, identifier?_natural,
    text?_text, bool?_bool, list?_of_reads identifier?_natural,
    table?_record (list?_of_reads text?_text), optional?_getD text?_text]

theorem LawNode.ofDocument?_toDocument {node : LawNode} (readable : node.value.Readable) :
    ofDocument? node.toDocument = some node.unsigned := by
  have fields : fields? ["id", "concept", "head", "reference", "value", "name", "formula"]
      node.toDocument = some ⟨[("id", .natural node.id.toNat),
        ("concept", .natural node.concept.toNat),
        ("head", (node.head.map fun id => Document.natural id.toNat).getD .null),
        ("reference", (node.reference.map fun id => Document.natural id.toNat).getD .null),
        ("value", .text node.value.display),
        ("name", (node.name.map Document.text).getD .null),
        ("formula", (node.formula.map Document.text).getD .null)]⟩ :=
    fields?_record rfl (by simp) (by simp)
  have value : payload? (.text node.value.display) = some node.value.unsigned :=
    congrArg some (Payload.parse_display_of_readable readable)
  simp [ofDocument?, fields, Fields.required?, Fields.default?, List.lookup, identifier?_natural,
    value, optional?_getD text?_text, optional?_getD identifier?_natural, unsigned]

theorem Law.ofDocument?_toDocument {law : Law}
    (readable : ∀ node ∈ law.nodes, node.value.Readable) :
    ofDocument? law.toDocument = some law.unsigned := by
  have fields : fields? ["id", "name", "nodes", "predicate_sets", "deep_nodes"]
      law.toDocument = some ⟨[("id", .natural law.id.toNat),
        ("name", .text law.name),
        ("nodes", .list (law.nodes.map LawNode.toDocument)),
        ("predicate_sets", .list (law.predicateSets.map fun set =>
          .list (set.toList.map fun id => .natural id.toNat))),
        ("deep_nodes", .list (law.deepNodes.map fun id => .natural id.toNat))]⟩ :=
    fields?_record rfl (by simp) (by simp)
  have nodes : list? LawNode.ofDocument? (.list (law.nodes.map LawNode.toDocument)) =
      some (law.nodes.map LawNode.unsigned) :=
    list?_map fun node member => LawNode.ofDocument?_toDocument (readable node member)
  have sets : list? (list? identifier?) (.list (law.predicateSets.map fun set =>
      .list (set.toList.map fun id => .natural id.toNat))) =
        some (law.predicateSets.map Std.ExtTreeSet.toList) :=
    list?_map fun set _ => list?_of_reads identifier?_natural set.toList
  have same : law.predicateSets.map (fun set => Std.ExtTreeSet.ofList set.toList) =
      law.predicateSets :=
    List.map_id'' ofList_toList_set law.predicateSets
  simp [ofDocument?, fields, Fields.required?, Fields.default?, List.lookup, identifier?_natural,
    text?_text, nodes, sets, list?_of_reads identifier?_natural, unsigned, Function.comp_def, same]

end

namespace Definition

/-- The values of all nodes were read from texts. -/
def Readable (definition : Definition) : Prop :=
  ∀ law ∈ definition.laws, ∀ node ∈ law.nodes, node.value.Readable

theorem ofDocument?_toDocument {definition : Definition} (readable : definition.Readable) :
    ofDocument? definition.toDocument = some definition.unsigned := by
  have fields : Document.fields? ["concepts", "laws"] definition.toDocument =
      some ⟨[("concepts", .list (definition.concepts.map Concept.toDocument)),
        ("laws", .list (definition.laws.map Law.toDocument))]⟩ :=
    Document.fields?_record rfl (by simp) (by simp)
  have laws : Document.list? Law.ofDocument? (.list (definition.laws.map Law.toDocument)) =
      some (definition.laws.map Law.unsigned) :=
    Document.list?_map fun law member => Law.ofDocument?_toDocument (readable law member)
  simp [ofDocument?, fields, Document.Fields.default?, List.lookup, laws,
    Document.list?_of_reads Concept.ofDocument?_toDocument, unsigned]

end Definition

/-! ## Writing -/

theorem LawNode.toDocument_unsigned (node : LawNode) :
    node.unsigned.toDocument = node.toDocument := by
  simp only [toDocument, unsigned, Payload.display_unsigned]

theorem Law.toDocument_unsigned (law : Law) : law.unsigned.toDocument = law.toDocument := by
  simp only [toDocument, unsigned, List.map_map, Function.comp_def, LawNode.toDocument_unsigned]

theorem Definition.toCbor_unsigned (definition : Definition) :
    definition.unsigned.toCbor = definition.toCbor := by
  simp only [toCbor, toDocument, unsigned, List.map_map, Function.comp_def,
    Law.toDocument_unsigned]

section

open Document

theorem Concept.writable_toDocument (depth : Nat) (concept : Concept) :
    concept.toDocument.Writable (depth + 3) := by
  refine .record (by simp) ?_
  simp only [List.forall_mem_cons]
  refine ⟨writable_identifier _ _, .text _ _, writable_list (writable_identifier _) _,
    .record (fun field member => ?_) fun field member => ?_, writable_optional (.text _) _,
    .bool _ _, List.forall_mem_nil _⟩
  · obtain ⟨entry, -, rfl⟩ := List.mem_map.1 member
    exact ⟨entry.1, rfl⟩
  · obtain ⟨entry, -, rfl⟩ := List.mem_map.1 member
    exact writable_list (.text depth) entry.2

theorem LawNode.writable_toDocument (depth : Nat) (node : LawNode) :
    node.toDocument.Writable (depth + 1) := by
  refine .record (by simp) ?_
  simp only [List.forall_mem_cons]
  exact ⟨writable_identifier _ _, writable_identifier _ _,
    writable_optional (writable_identifier _) _, writable_optional (writable_identifier _) _,
    .text _ _, writable_optional (.text _) _, writable_optional (.text _) _, List.forall_mem_nil _⟩

theorem Law.writable_toDocument (depth : Nat) (law : Law) :
    law.toDocument.Writable (depth + 3) := by
  refine .record (by simp) ?_
  simp only [List.forall_mem_cons]
  exact ⟨writable_identifier _ _, .text _ _,
    writable_list (LawNode.writable_toDocument depth) _,
    writable_list (fun set : Std.ExtTreeSet LawNodeId compare =>
      writable_list (writable_identifier depth) set.toList) _,
    writable_list (writable_identifier _) _, List.forall_mem_nil _⟩

theorem Definition.writable_toDocument (depth : Nat) (definition : Definition) :
    definition.toDocument.Writable (depth + 5) := by
  refine .record (by simp) ?_
  simp only [List.forall_mem_cons]
  exact ⟨writable_list (Concept.writable_toDocument depth) _,
    writable_list (Law.writable_toDocument depth) _, List.forall_mem_nil _⟩

end

/-- The bytes of a definition are read as its fields. -/
theorem Definition.read?_toCbor {definition : Definition} (readable : definition.Readable)
    (fits : definition.toCbor.length < 2 ^ 64) :
    Cbor.read? definition.toCbor >>= ofDocument? = some definition.unsigned := by
  have read : Cbor.read? definition.toCbor = some definition.toDocument :=
    Cbor.read?_write (writable_toDocument 122 definition) fits
  rw [read, Option.bind_eq_bind, Option.bind_some, ofDocument?_toDocument readable]

/-- Definitions have the same bytes exactly if they differ in no field. -/
theorem Definition.toCbor_eq_iff {left right : Definition} (readableLeft : left.Readable)
    (readableRight : right.Readable) (fits : right.toCbor.length < 2 ^ 64) :
    left.toCbor = right.toCbor ↔ left.Alike right := by
  rw [alike_iff]
  constructor
  · intro same
    have read := read?_toCbor readableLeft (same ▸ fits)
    rw [same, read?_toCbor readableRight fits] at read
    exact (Option.some.inj read).symm
  · intro same
    rw [← left.toCbor_unsigned, same, right.toCbor_unsigned]

/-! ## Checks -/

theorem Law.links_unsigned (law : Law) : law.unsigned.Links = law.Links := by
  funext child parent
  simp [Links, unsigned, LawNode.unsigned, LawNode.parents]

theorem Law.IsPredicateSet.unsigned {law : Law} {set : Std.ExtTreeSet LawNodeId compare}
    (valid : law.IsPredicateSet set) : law.unsigned.IsPredicateSet set where
  filled := valid.filled
  closed id member := by
    obtain ⟨node, inLaw, same, plain, closed⟩ := valid.closed id member
    exact ⟨node.unsigned, List.mem_map_of_mem inLaw, same, plain, closed⟩

/-- No check of a law looks at the values of its nodes. -/
theorem Law.Consistent.unsigned {definition : Definition} {law : Law}
    (consistent : law.Consistent definition) : law.unsigned.Consistent definition.unsigned where
  known := List.forall_mem_map.2 consistent.known
  linked := by
    rw [Law.links_unsigned]
    intro child parent link
    obtain ⟨node, member, same⟩ := consistent.linked child parent link
    exact ⟨node.unsigned, List.mem_map_of_mem member, same⟩
  headed := List.forall_mem_map.2 consistent.headed
  acyclic := law.links_unsigned ▸ consistent.acyclic
  hasSets := consistent.hasSets
  sets set member := (consistent.sets set member).unsigned
  different := consistent.different
  deep id member := by
    obtain ⟨node, inLaw, same⟩ := consistent.deep id member
    exact ⟨node.unsigned, List.mem_map_of_mem inLaw, same⟩

theorem Definition.Consistent.unsigned {definition : Definition}
    (consistent : definition.Consistent) : definition.unsigned.Consistent where
  conceptIds := consistent.conceptIds
  lawIds := by
    have ids : definition.unsigned.laws.map Law.id = definition.laws.map Law.id := List.map_map
    exact ids ▸ consistent.lawIds
  nodeIds := by
    have nodes (law : Law) : law.unsigned.nodes.map LawNode.id = law.nodes.map LawNode.id :=
      List.map_map
    have ids : (definition.unsigned.laws.flatMap fun law => law.nodes.map LawNode.id) =
        definition.laws.flatMap fun law => law.nodes.map LawNode.id := by
      simp only [Definition.unsigned, List.flatMap_map, nodes]
    exact ids ▸ consistent.nodeIds
  parents := consistent.parents
  acyclic := consistent.acyclic
  laws := List.forall_mem_map.2 fun law member => (consistent.laws law member).unsigned

/-! ## Catalogs -/

namespace Catalog

/-- The bytes of a catalog, if a machine word counts them, are read as a catalog again, whose
definition has the same fields, values up to the signs of zeros and with the same texts; its bytes
and its fingerprint are the same. The definitions with these bytes are those with the same fields.
-/
theorem ofCbor_toCbor {definition : Definition} {catalog : Catalog}
    (made : ofDefinition definition = .ok catalog) (readable : definition.Readable)
    (fits : definition.toCbor.length < 2 ^ 64) :
    (∃ loaded, ofCbor catalog.toCbor = .ok loaded ∧ loaded.definition.Alike definition ∧
      loaded.toCbor = catalog.toCbor ∧ loaded.fingerprint = catalog.fingerprint) ∧
    ∀ other : Definition, other.Readable →
      (other.toCbor = catalog.toCbor ↔ other.Alike definition) := by
  obtain ⟨loaded, remade⟩ := exists_ofDefinition_iff.2
    (exists_ofDefinition_iff.1 ⟨catalog, made⟩).unsigned
  obtain ⟨-, ⟨_, -, rfl⟩, -⟩ := ofDefinition_eq_ok.1 made
  have read : ofCbor definition.toCbor = .ok loaded := by
    rw [ofCbor, ofDocument, definition.read?_toCbor readable fits]
    exact remade
  obtain ⟨-, ⟨_, -, rfl⟩, -⟩ := ofDefinition_eq_ok.1 remade
  have bytes := definition.toCbor_unsigned
  exact ⟨⟨_, read, definition.alike_unsigned, bytes,
      congrArg (Fingerprint.ofContent Fingerprint.catalogDomain) bytes⟩,
    fun other readableOther => Definition.toCbor_eq_iff readableOther readable fits⟩

/-- A law whose first node has a value to compare. -/
def corners (value : Float) : Definition where
  concepts := [⟨⟨1⟩, "point", [], .ofList [("visual", ["radius := 1"])], some "P", false⟩,
    ⟨⟨2⟩, "corner", [⟨1⟩], ∅, none, true⟩]
  laws := [⟨⟨7⟩, "radius",
    [⟨⟨300⟩, ⟨2⟩, none, none, ⟨[.number value]⟩, none, none⟩,
      ⟨⟨70000⟩, ⟨1⟩, some ⟨300⟩, none, .empty, some "copy", some "radius := 2"⟩],
    [.ofList [(⟨300⟩ : LawNodeId)]], [⟨70000⟩]⟩]

theorem readable_corners (value : Float) : (corners value).Readable := by
  refine List.forall_mem_singleton.2 (List.forall_mem_cons.2 ⟨?_, List.forall_mem_singleton.2 ?_⟩)
  · exact Payload.readable_number value
  · exact Payload.readable_empty

/-- The bytes do not tell a zero from the negative one. -/
theorem ofCbor_toCbor_corners : ∃ catalog, ofDefinition (corners 0) = .ok catalog ∧
    (corners 0).Readable ∧ (corners 0).toCbor.length < 2 ^ 64 ∧
    (∃ loaded, ofCbor catalog.toCbor = .ok loaded ∧ loaded.definition.Alike (corners 0) ∧
      loaded.toCbor = catalog.toCbor ∧ loaded.fingerprint = catalog.fingerprint) ∧
    (corners (-0)).Readable ∧
      ((corners (-0)).toCbor = catalog.toCbor ↔ (corners (-0)).Alike (corners 0)) := by
  obtain ⟨catalog, made⟩ : ∃ catalog, ofDefinition (corners 0) = .ok catalog := ⟨_, rfl⟩
  have fits : (corners 0).toCbor.length < 2 ^ 64 := by decide +kernel
  obtain ⟨loaded, others⟩ := ofCbor_toCbor made (readable_corners 0) fits
  exact ⟨catalog, made, readable_corners 0, fits, loaded, readable_corners (-0),
    others (corners (-0)) (readable_corners (-0))⟩

end Catalog

end ConceptLaws
