import FormDirectives.Diagnostic
import FormDirectives.Json
import FormDirectives.Props

/-! Directive lines. A source is read line by line: a line without its outer blanks is passed over if nothing
    is left of it or if it starts with the comment marker `@//`, it is a directive if it starts with `@` and a
    word, and any other line is reported. No line depends on another. -/

namespace FormDirectives
open Text

structure Token where
  directive : String
  props : Props := ∅
  line : Int := 0
  deriving DecidableEq, Repr

/-- What one line of a source holds. -/
inductive Line
  | skipped
  | unparsable (text : String)
  | directive (name : String) (props : Props)
  deriving DecidableEq, Repr

namespace Line

def commentMarker : List Char := ['@', '/', '/']

def ofStripped (cs : List Char) : Line :=
  if cs = [] ∨ commentMarker <+: cs then .skipped else
    match cs with
    | '@' :: rest =>
      let name := rest.takeWhile isWord
      if name = [] then .unparsable (String.ofList cs)
      else .directive (String.ofList name) (Props.ofPairs (Props.pairs (rest.dropWhile isWord)))
    | _ => .unparsable (String.ofList cs)

def read (cs : List Char) : Line := ofStripped (strip cs)

def token? (number : Nat) : Line → Option Token
  | .directive name props => some { directive := name, props, line := number }
  | _ => none

def diagnostic? (number : Nat) : Line → Option Diagnostic
  | .unparsable text => some { issue := .unparsableLine text, line := some number }
  | _ => none

end Line

/-! ### Sources -/

/-- The lines of a source with their numbers, the first being line one. -/
def numberedLines (source : String) : List (Line × Nat) :=
  ((source.toList.splitOn '\n').map Line.read).zipIdx 1

def tokenize (source : String) : List Token := (numberedLines source).filterMap fun l => l.1.token? l.2

def lineDiagnostics (source : String) : List Diagnostic :=
  (numberedLines source).filterMap fun l => l.1.diagnostic? l.2

namespace Props

def toJson (p : Props) : Json := .object (p.entries.map fun e => (e.1, .string e.2))

end Props

def Token.toJson (t : Token) : Json :=
  .object [("directive", .string t.directive), ("props", t.props.toJson), ("line", .int t.line)]

end FormDirectives
