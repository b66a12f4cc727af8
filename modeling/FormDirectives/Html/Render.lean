import FormDirectives.Html.Markup
import FormDirectives.Tree

/-! Rendering a tree. The children of a container stand one below the other at its content, the children of the
    root are the document. Without escaping, each node that emits a character with a meaning in HTML is
    reported. -/

namespace FormDirectives

/-- The values that an element's markup shows, in the order of its fields. -/
def Element.shownValues : Element → List String
  | .root => []
  | .form action method => [action, method]
  | .group label => [label]
  | .input name label type => [name, label, type]
  | .checkbox name label => [name, label]
  | .select name label options source => [name, label] ++ source.toList ++ options
  | .submit label => [label]
  | .unknown directive => [directive]

/-- The report on the first shown value that holds a special character. -/
def Node.unescaped? (n : Node) : Option Diagnostic :=
  (n.element.shownValues.find? fun v => v.toList.any Html.isSpecial).map fun v =>
    { issue := .unescapedContent n.kind v, line := n.line }

/-- The markup of an element around what stands below it, one below the other. -/
def Element.markup (escaped : Bool) (e : Element) (below : List String) : String :=
  Html.html escaped ("\n".intercalate below) (Html.pieces e)

/-! ### Slots

Every entry has a slot for its markup. The slots are filled from the last entry to the first; a container takes
the markup of its children out of their slots and leaves its own in its slot, so that in the end the slot of the
root holds the document. -/

namespace Html

def blank (slots : Array String) (places : List Nat) : Array String :=
  places.foldl (fun slots i => slots.setIfInBounds i "") slots

/-- Fills the slot of the entry at place `i`. -/
def fillSlot (escaped : Bool) (i : Nat) (e : Entry) (slots : Array String) : Array String :=
  let below := e.children.map fun c => slots[c]?.getD ""
  (blank slots e.children).setIfInBounds i (e.node.element.markup escaped below)

end Html

namespace Tree

def slots (escaped : Bool) (t : Tree) : Array String :=
  t.entries.size.foldRev (fun i _ slots => Html.fillSlot escaped i t.entries[i] slots) (.replicate t.entries.size "")

def html (escaped : Bool) (t : Tree) : String := (t.slots escaped)[0]?.getD ""

/-- The reports on nodes that emit special characters as they are, in the order of the entries. -/
def unescaped (t : Tree) : List Diagnostic := t.nodes.filterMap Node.unescaped?

def renderDiagnostics (escaped : Bool) (t : Tree) : List Diagnostic := if escaped then [] else t.unescaped

end Tree
end FormDirectives
