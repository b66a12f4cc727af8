import FormDirectives.Text.Quoted

/-! Diagnostics: what a compilation finds wrong with a form without giving up on it. Each names its issue and
    the line it was found on; its code, its text and how severe it is follow from the issue. -/

namespace FormDirectives

inductive Severity
  | warning
  | info
  | other (name : String)
  deriving DecidableEq, Repr

def Severity.name : Severity → String
  | .warning => "warning"
  | .info => "info"
  | .other name => name

inductive Issue
  /-- A line that is neither blank, nor a comment, nor a directive. -/
  | unparsableLine (text : String)
  /-- A closer that finds only the root open, and closes it. -/
  | closesRoot (directive : String)
  /-- A closer after the root was closed. -/
  | closesNothing (directive : String)
  | mismatchedClose (directive kind : String) (openedOn : Int)
  | unclosedContainer (kind : String)
  /-- A directive after the root was closed. -/
  | detachedDirective (directive : String)
  | unrecognizedDirective (directive : String)
  | unescapedContent (kind value : String)
  /-- An issue that only its reporter knows. -/
  | custom (code message : String) (severity : Severity)
  deriving DecidableEq, Repr

namespace Issue

def code : Issue → String
  | unparsableLine _ => "UnparsableLine"
  | closesRoot _ | closesNothing _ => "UnmatchedClose"
  | mismatchedClose .. => "MismatchedClose"
  | unclosedContainer _ => "UnclosedContainer"
  | detachedDirective _ => "DetachedDirective"
  | unrecognizedDirective _ => "UnrecognizedDirective"
  | unescapedContent .. => "UnescapedContent"
  | custom code .. => code

def message : Issue → String
  | unparsableLine text => s!"not a directive line: {Text.quoted text}"
  | closesRoot directive => s!"@{directive} has no open container; it closes the root"
  | closesNothing directive => s!"@{directive} has no open container to close"
  | mismatchedClose directive kind openedOn => s!"@{directive} closes @{kind} opened on line {openedOn}"
  | unclosedContainer kind => s!"@{kind} is never closed"
  | detachedDirective directive => s!"@{directive} follows the close of the root and is dropped"
  | unrecognizedDirective directive => s!"@{directive} has no rendering rule; it renders as a comment"
  | unescapedContent kind value => s!"@{kind} emits {Text.quoted value} without HTML escaping"
  | custom _ message _ => message

def severity : Issue → Severity
  | unrecognizedDirective _ | unescapedContent .. => .info
  | custom _ _ severity => severity
  | _ => .warning

/-- The issues that strict parsing refuses. -/
def isStructural : Issue → Bool
  | closesRoot _ | closesNothing _ | mismatchedClose .. | unclosedContainer _ => true
  | _ => false

def isUnrecognized : Issue → Bool
  | unrecognizedDirective _ => true
  | _ => false

theorem isUnrecognized_of_isStructural {i : Issue} (h : i.isStructural = true) : i.isUnrecognized = false := by
  cases i with
  | unrecognizedDirective _ => cases h
  | _ => rfl

end Issue

structure Diagnostic where
  issue : Issue
  line : Option Int := none
  deriving DecidableEq, Repr

namespace Diagnostic

/-- The line it is found on; the whole document if there is none, or if it is line zero. -/
def place (d : Diagnostic) : String :=
  match d.line with
  | none => "document"
  | some n => if n = 0 then "document" else s!"line {n}"

def format (d : Diagnostic) : String := s!"{d.place}: [{d.issue.code}] {d.issue.message}"

def isWarning (d : Diagnostic) : Bool := d.issue.severity = .warning

end Diagnostic

def hasWarnings (ds : List Diagnostic) : Bool := ds.any Diagnostic.isWarning

end FormDirectives
