import FormDirectives.Diff.Script
import FormDirectives.Text.Lines

/-! Unified diffs. The changes are shown in hunks with three lines of what is shared around them; a hunk starts
    with the ranges of lines that it covers in the two texts. -/

namespace FormDirectives.Diff

/-- How many shared lines stand around a change. -/
def context : Nat := 3

/-- An edit with the number of lines before it in the two lists. -/
structure Located where
  old : Nat
  new : Nat
  edit : Edit
  deriving DecidableEq, Repr

def locate (old new : Nat) : List Edit → List Located
  | [] => []
  | e :: rest => { old, new, edit := e } :: locate (old + e.old.length) (new + e.new.length) rest

/-! ### Hunks -/

/-- The first `n` lines of a shared part. -/
def Located.first (n : Nat) (l : Located) : Located :=
  match l.edit with
  | .keep ls => { l with edit := .keep (ls.take n) }
  | .change .. => l

/-- The last `n` lines of a shared part. -/
def Located.last (n : Nat) (l : Located) : Located :=
  match l.edit with
  | .keep ls =>
    let gone := ls.length - n
    { old := l.old + gone, new := l.new + gone, edit := .keep (ls.drop gone) }
  | .change .. => l

def trimFirst : List Located → List Located
  | l :: rest => l.last context :: rest
  | [] => []

def trimLast : List Located → List Located
  | [] => []
  | [l] => [l.first context]
  | l :: rest => l :: trimLast rest

/-- Cuts inside every shared part that is longer than the context of two changes. -/
def group : List Located → List (List Located)
  | [] => [[]]
  | l :: rest =>
    match group rest with
    | [] => [[l]]
    | g :: gs =>
      match l.edit with
      | .keep ls =>
        if 2 * context < ls.length then [l.first context] :: (l.last context :: g) :: gs else (l :: g) :: gs
      | .change .. => (l :: g) :: gs

def hasChange (hunk : List Located) : Bool :=
  hunk.any fun l => match l.edit with
    | .change .. => true
    | .keep _ => false

def hunks (edits : List Edit) : List (List Located) :=
  (group (trimLast (trimFirst (locate 0 0 edits)))).filter hasChange

/-! ### Text -/

/-- A range of lines: its first line and its length, unless that is one. -/
def rangeText (before length : Nat) : String :=
  if length = 1 then s!"{before + 1}" else if length = 0 then s!"{before},0" else s!"{before + 1},{length}"

def Edit.text : Edit → String
  | .keep ls => String.join (ls.map (" " ++ ·))
  | .change old new => String.join (old.map ("-" ++ ·)) ++ String.join (new.map ("+" ++ ·))

def hunkText (hunk : List Located) : String :=
  match hunk with
  | [] => ""
  | l :: _ =>
    let old := hunk.flatMap fun l => l.edit.old
    let new := hunk.flatMap fun l => l.edit.new
    s!"@@ -{rangeText l.old old.length} +{rangeText l.new new.length} @@\n" ++
      String.join (hunk.map fun l => l.edit.text)

def lines (s : String) : List String := (Text.linesWithEnds s.toList).map String.ofList

/-- The changes that lead from the one text to the other, empty if there are none. -/
def unified (oldName newName oldText newText : String) : String :=
  match hunks (compare (lines oldText) (lines newText)) with
  | [] => ""
  | hs => s!"--- {oldName}\n+++ {newName}\n" ++ String.join (hs.map hunkText)

end FormDirectives.Diff
