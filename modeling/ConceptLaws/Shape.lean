import ConceptLaws.Propagation.DataTree

/-! Shapes described by an exported visual tree.
A visual node lists its shapes by kind; a kind holds the attributes of one shape, or several
numbered shapes. An attribute is looked up on the shape, on its kind, on the visual node, and on the
root. -/

namespace ConceptLaws

structure Point where
  x : Float
  y : Float
deriving Repr

namespace Point

def origin : Point := ⟨0, 0⟩

def offset (point other : Point) : Point := ⟨point.x + other.x, point.y + other.y⟩

def difference (point other : Point) : Point := ⟨point.x - other.x, point.y - other.y⟩

/-- The point at an angle and a distance. -/
def polar (point : Point) (angle distance : Float) : Point :=
  ⟨point.x + distance * angle.cos, point.y + distance * angle.sin⟩

end Point

/-- A shape in the frame of its entity. -/
inductive Shape where
  | line (start finish : Point)
  | circle (center : Point) (radius : Float)
  | arc (center : Point) (radius angleStart angleEnd : Float)
  /-- The right angle is at the second vertex. -/
  | rightTriangle (first second third : Point)
deriving Repr

/-- Where a shape is put: scaled, then rotated, then moved. -/
structure Frame where
  origin : Point
  rotation : Float
  scale : Float
deriving Repr

namespace Frame

def place (frame : Frame) (point : Point) : Point :=
  let x := point.x * frame.scale
  let y := point.y * frame.scale
  ⟨frame.origin.x + x * frame.rotation.cos - y * frame.rotation.sin,
    frame.origin.y + x * frame.rotation.sin + y * frame.rotation.cos⟩

end Frame

/-- The fields of an exported object: by name, each once. -/
abbrev Attributes := List (String × Json)

namespace Attributes

open Propagation

mutual

/-- A number, a text that reads as one, or the own value of an object. -/
def number? : Json → Option Float
  | .integer value => some (Float.ofInt value)
  | .real value => some value
  | .string content => Decimal.float? (Text.trim content.toList)
  | .object fields => ownNumber? fields
  | _ => none

def ownNumber? : List (String × Json) → Option Float
  | [] => none
  | (name, value) :: rest =>
    if name = ownValueSegment then number? value else ownNumber? rest

end

/-- The attributes of an object. -/
def ofJson? : Json → Option Attributes
  | .object fields => some fields
  | _ => none

/-- A point has at least one of its coordinates. -/
def point? (json : Json) : Option Point :=
  match json.field? "x" >>= number?, json.field? "y" >>= number? with
  | none, none => none
  | x, y => some ⟨x.getD 0, y.getD 0⟩

/-- The objects among numbered fields, by number. -/
def numbered (attributes : Attributes) : List Attributes :=
  let children := attributes.filterMap fun (name, value) => do
    some (← Decimal.index? name.toList, ← ofJson? value)
  (children.mergeSort fun left right => left.1 ≤ right.1).map Prod.snd

end Attributes

/-- Attributes from the innermost to the outermost; the first that has a name gives its value. -/
abbrev Scope := List Attributes

namespace Scope

def get? (scope : Scope) (name : String) : Option Json := scope.findSome? (List.lookup name)

def number? (scope : Scope) (name : String) : Option Float := scope.get? name >>= Attributes.number?

def point? (scope : Scope) (name : String) : Option Point := scope.get? name >>= Attributes.point?

def frame (scope : Scope) : Frame where
  origin := (scope.point? "origin").getD .origin
  rotation := (scope.number? "rotation").getD 0
  scale := (scope.number? "scale").getD 1

def start (scope : Scope) : Point := (scope.point? "start").getD .origin

/-- The end of a line: given, relative to the start, or at a distance in a direction. -/
def finish? (scope : Scope) : Option Point :=
  match scope.point? "end", scope.point? "delta", scope.number? "length" with
  | some finish, _, _ => some finish
  | none, some delta, _ => some (scope.start.offset delta)
  | none, none, some distance =>
    some (scope.start.polar ((scope.number? "direction").getD 0) distance)
  | none, none, none => none

def line? (scope : Scope) : Option Shape :=
  scope.finish?.map fun finish =>
    .line (scope.frame.place scope.start) (scope.frame.place finish)

def fullTurn : Float := 6.283185307179586

def radius? (scope : Scope) : Option Float :=
  ((scope.number? "radius").or (scope.number? "length")).map (· * scope.frame.scale)

/-- A circle; an arc if that is asked for or one of its angles is given. -/
def circle? (scope : Scope) (asArc : Bool) : Option Shape :=
  let center := scope.frame.place scope.start
  let angleStart := scope.number? "angle_start"
  let angleEnd := scope.number? "angle_end"
  scope.radius?.map fun radius =>
    if !asArc && angleStart.isNone && angleEnd.isNone then .circle center radius
    else .arc center radius (angleStart.getD 0 + scope.frame.rotation)
      (angleEnd.getD fullTurn + scope.frame.rotation)

/-- How far a triangle goes from its start: given, or told from its end. -/
def delta? (scope : Scope) : Option Point :=
  (scope.point? "delta").or ((scope.point? "end").map (Point.difference · scope.start))

/-- A triangle whose legs run along the axes, first along x. -/
def rightTriangle? (scope : Scope) : Option Shape :=
  scope.delta?.map fun delta =>
    .rightTriangle (scope.frame.place scope.start)
      (scope.frame.place ⟨scope.start.x + delta.x, scope.start.y⟩)
      (scope.frame.place (scope.start.offset delta))

/-- The shape of a kind; none for an unknown kind or where an attribute is missing. -/
def shape? (scope : Scope) : String → Option Shape
  | "line" => scope.line?
  | "circle" => scope.circle? false
  | "arc" => scope.circle? true
  | "right_triangle" => scope.rightTriangle?
  | "triangle" => scope.rightTriangle?
  | _ => none

end Scope

namespace Shape

def visualSegment : String := "visual"
def shapeSegment : String := "shape"

/-- The scopes of the shapes of one kind. -/
def scopes (attributes : Attributes) (outer : Scope) : List Scope :=
  match attributes.numbered with
  | [] => [attributes :: outer]
  | shapes => shapes.map fun shape => shape :: attributes :: outer

/-- The shapes of a visual node, by kind. -/
def ofNode (node : Attributes) (outer : Scope) : List Shape :=
  let kinds := (node.lookup shapeSegment >>= Attributes.ofJson?).getD []
  kinds.flatMap fun (kind, value) =>
    match Attributes.ofJson? value with
    | none => []
    | some attributes =>
      (scopes attributes (node :: outer)).filterMap fun scope => scope.shape? kind

/-- The shapes of an exported visual tree: those of the root, then those of its numbered children.
-/
def ofExport (visual : Json) : List Shape :=
  match Attributes.ofJson? visual with
  | none => []
  | some root => ofNode root [] ++ root.numbered.flatMap fun child => ofNode child [root]

end Shape

end ConceptLaws
