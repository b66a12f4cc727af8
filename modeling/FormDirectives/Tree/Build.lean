import FormDirectives.Tree

/-! From tokens to a tree. Openers, fields and directives without a rule become the last child of the innermost
    open container; a closer closes that container whatever its kind. Closing the root leaves nothing open, and
    what follows is dropped. Strict building stops at the first structural issue, lenient building reports it
    and goes on. -/

namespace FormDirectives

/-- Why strict building stopped, and what it had reported before. -/
structure StructureError where
  diagnostic : Diagnostic
  earlier : List Diagnostic
  deriving DecidableEq, Repr

structure Builder where
  tree : Tree := .start
  /-- The places of the open containers, innermost first. -/
  stack : List Nat := [0]
  diagnostics : List Diagnostic := []

namespace Builder

def report (b : Builder) (d : Diagnostic) : Builder := { b with diagnostics := b.diagnostics ++ [d] }

/-- Reports a structural issue, or stops at it. -/
def refuse (strict : Bool) (b : Builder) (d : Diagnostic) : Except StructureError Builder :=
  if strict then .error { diagnostic := d, earlier := b.diagnostics } else .ok (b.report d)

/-- Adds a node to the container at `parent`; an opened container is the innermost from then on. -/
def addNode (b : Builder) (n : Node) (parent : Nat) : Builder :=
  { b with
    tree := (b.tree.add n parent).1
    stack := if n.isContainer then b.tree.size :: b.stack else b.stack }

/-- Adds the node of a token to the innermost open container, if there is one. -/
def append (b : Builder) (t : Token) : Builder :=
  match b.stack with
  | [] => b.report { issue := .detachedDirective t.directive, line := t.line }
  | top :: _ =>
    let b := if t.role = .unknown then b.report { issue := .unrecognizedDirective t.directive, line := t.line } else b
    b.addNode t.node top

/-- What is wrong with a closer for `c`, if anything is. -/
def closeIssue? (b : Builder) (t : Token) (c : Container) : Option Diagnostic :=
  match b.stack with
  | [] => some { issue := .closesNothing t.directive, line := t.line }
  | [_] => some { issue := .closesRoot t.directive, line := t.line }
  | top :: _ =>
    let opened := b.tree.nodeAt top
    if opened.kind = c.kind then none
    else some { issue := .mismatchedClose t.directive opened.kind opened.line, line := t.line }

/-- Closes the innermost open container, the root if nothing else is open. -/
def close (strict : Bool) (b : Builder) (t : Token) (c : Container) : Except StructureError Builder := do
  let b ← match b.closeIssue? t c with
    | none => .ok b
    | some d => b.refuse strict d
  return { b with stack := b.stack.tail }

def step (strict : Bool) (b : Builder) (t : Token) : Except StructureError Builder :=
  match t.role with
  | .closer c => b.close strict t c
  | _ => .ok (b.append t)

/-- The issues of the containers that are still open, outermost first; the root closes by itself. -/
def unclosed (b : Builder) : List Diagnostic :=
  (b.stack.reverse.drop 1).map fun i =>
    { issue := .unclosedContainer (b.tree.nodeAt i).kind, line := (b.tree.nodeAt i).line }

def finish (strict : Bool) (b : Builder) : Except StructureError Builder := b.unclosed.foldlM (refuse strict) b

end Builder

/-- A tree with what was reported while it was built. -/
structure Parsed where
  tree : Tree
  diagnostics : List Diagnostic

def Builder.parsed (b : Builder) : Parsed := { tree := b.tree, diagnostics := b.diagnostics }

def parse (strict : Bool) (tokens : List Token) : Except StructureError Parsed :=
  (tokens.foldlM (Builder.step strict) {} >>= Builder.finish strict).map Builder.parsed

end FormDirectives
