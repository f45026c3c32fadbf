import ConceptLaws.Text

/-! Paths of keys.
A path is a list of segments, written with dots between them; the empty path is the root. In the
lexicographic order of segments the keys at and below a path are neighbours. -/

namespace ConceptLaws

abbrev Path := List String

namespace Path

def root : Path := []

/-- Reads a dotted path; empty segments are left out. -/
def parse (source : String) : Path :=
  ((Text.splitAt '.' source.toList).filter (!·.isEmpty)).map String.ofList

def display (path : Path) : String := Text.join "." path

def child (path : Path) (segment : String) : Path := path ++ [segment]

def join (path suffix : Path) : Path := path ++ suffix

/-- The path without its last segment; the root has none. -/
def parent? (path : Path) : Option Path :=
  if path.isEmpty then none else some path.dropLast

/-- Whether `path` is `top` or lies below it. -/
def isWithin (path top : Path) : Bool := top.isPrefixOf path

def isBelow (path top : Path) : Bool := isWithin path top && path != top

/-- The segments of `path` after those of `top`. -/
def relative? (path top : Path) : Option Path :=
  if path.isWithin top then some (path.drop top.length) else none

/-- The path and its ancestors, the root last. -/
def ancestry (path : Path) : List Path :=
  (List.range (path.length + 1)).reverse.map fun length => path.take length

end Path

end ConceptLaws
