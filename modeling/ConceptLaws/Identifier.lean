import Std.Data.ExtTreeMap

/-! Identifiers.
Concepts, laws, law nodes, entities and correspondences are numbered by machine words; the kind
keeps their numbers apart. -/

namespace ConceptLaws

inductive IdKind where
  | concept | law | lawNode | entity | map
deriving Repr, DecidableEq

def IdKind.name : IdKind → String
  | concept => "ConceptId"
  | law => "LawId"
  | lawNode => "LawNodeId"
  | entity => "EntityId"
  | map => "MapId"

structure Identifier (kind : IdKind) where
  number : UInt64
deriving Repr, DecidableEq, Inhabited

namespace Identifier

variable {kind : IdKind}

instance : Ord (Identifier kind) where
  compare := compareOn number

instance : Std.TransOrd (Identifier kind) :=
  inferInstanceAs (Std.TransCmp (compareOn number))

instance : Std.LawfulEqOrd (Identifier kind) where
  compare_self := (inferInstance : Std.ReflCmp
    (compareOn number)).compare_self
  eq_of_compare {left right} same := by
    have numbers : left.number = right.number := Std.compare_eq_iff_eq.1 same
    cases left
    cases right
    simp_all

def display (id : Identifier kind) : String :=
  kind.name ++ "(" ++ toString id.number.toNat ++ ")"

/-- The identifier of a number below two to the sixty-fourth. -/
def ofNat? (number : Nat) : Option (Identifier kind) :=
  if number < UInt64.size then some ⟨number.toUInt64⟩ else none

def toNat (id : Identifier kind) : Nat := id.number.toNat

/-- The next identifier; it wraps around. -/
def next (id : Identifier kind) : Identifier kind := ⟨id.number + 1⟩

def maximum (left right : Identifier kind) : Identifier kind :=
  if left.number < right.number then right else left

end Identifier

abbrev ConceptId := Identifier .concept
abbrev LawId := Identifier .law
abbrev LawNodeId := Identifier .lawNode
abbrev EntityId := Identifier .entity
abbrev MapId := Identifier .map

end ConceptLaws
