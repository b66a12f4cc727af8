import FormDirectives.Tree

/-! The outline of a tree as JSON: the kind and the properties of a node, its line unless it is zero, and the
    outlines of a container's children. -/

namespace FormDirectives.Tree

/-- The greatest number of nodes on a path of an outline. At most a thousand calls can be open; each node takes two of
    them, one for itself and one for the list of its children, and a few are open before the first. -/
def maxNesting : Nat := 480

/-- The outline of entry `i`, unless it is nested deeper than `depth` nodes. -/
def outlineWithin? : (depth : Nat) → Tree → (i : Nat) → Option Json
  | 0, _, _ => none
  | depth + 1, t, i => do
    let e ← t.entries[i]?
    let below ← e.children.mapM (outlineWithin? depth t)
    let line := if e.node.line = 0 then [] else [("line", Json.int e.node.line)]
    let children := if e.node.isContainer then [("children", Json.array below)] else []
    return .object ([("kind", .string e.node.kind), ("props", e.node.props.toJson)] ++ line ++ children)

def outline? (t : Tree) (i : Nat) : Option Json := outlineWithin? maxNesting t i

end FormDirectives.Tree
