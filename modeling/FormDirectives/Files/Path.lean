/-! Paths. Empty and single-dot parts are dropped, double-dot parts are kept; a path is absolute if it starts
    with a slash, and two slashes in front are not the same as one. -/

namespace FormDirectives.Files

inductive Anchor
  | relative
  | root
  | doubleRoot
  deriving DecidableEq, Repr

structure Path where
  anchor : Anchor
  parts : List String
  deriving DecidableEq, Repr

namespace Path

def anchorOf : List Char → Anchor
  | '/' :: '/' :: '/' :: _ => .root
  | '/' :: '/' :: _ => .doubleRoot
  | '/' :: _ => .root
  | _ => .relative

def ofString (s : String) : Path where
  anchor := anchorOf s.toList
  parts := ((s.toList.splitOn '/').map String.ofList).filter fun p => p ≠ "" ∧ p ≠ "."

def anchorText : Anchor → String
  | .relative => ""
  | .root => "/"
  | .doubleRoot => "//"

def toString (p : Path) : String :=
  match p.anchor, p.parts with
  | .relative, [] => "."
  | anchor, parts => anchorText anchor ++ "/".intercalate parts

instance : ToString Path := ⟨Path.toString⟩

/-- The last part, empty if there is none. -/
def name (p : Path) : String := p.parts.getLast?.getD ""

def parent (p : Path) : Path := { p with parts := p.parts.dropLast }

def isHere (p : Path) : Bool := p.anchor = .relative && p.parts = []

end Path
end FormDirectives.Files
