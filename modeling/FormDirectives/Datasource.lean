import FormDirectives.Html.Markup
import FormDirectives.Tree

/-! Datasources: a registry of option lists under the exact paths that selects name. -/

namespace FormDirectives

structure Registry where
  entries : OrderedMap String (List String) := ∅

namespace Registry

/-- A source registered again keeps its place and takes the new values. -/
def register (r : Registry) (source : String) (values : List String) : Registry :=
  { entries := r.entries.insert source values }

/-- The options of a source; one that is not registered has none. -/
def resolve (r : Registry) (source : String) : List String := r.entries.getD source []

def contains (r : Registry) (source : String) : Bool := r.entries.contains source

def optionsHtml (r : Registry) (escaped : Bool) (source : String) : String :=
  Html.optionsHtml escaped (r.resolve source)

end Registry

/-- The values of a list, each where it first comes. -/
def distinct (values : List String) : List String :=
  values.foldl (fun seen v => if v ∈ seen then seen else seen ++ [v]) []

/-- The datasources of the selects below the root, each where it first comes. -/
def Tree.sources (t : Tree) : List String :=
  distinct (t.order.filterMap fun i => (t.node? i).bind (·.element.source?))

/-- The datasources of a tree that are not registered. -/
def Registry.missing (r : Registry) (t : Tree) : List String := t.sources.filter fun s => !r.contains s

end FormDirectives
