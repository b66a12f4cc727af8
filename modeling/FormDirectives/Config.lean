import FormDirectives.Datasource

/-! The options of a compilation. -/

namespace FormDirectives

structure Config where
  strict : Bool := false
  escape : Bool := false
  datasources : OrderedMap String (List String) := ∅
  deriving DecidableEq

/-- The options with flags put on top; a flag can set an option but not unset it. -/
def Config.withFlags (c : Config) (strict escape : Bool) : Config :=
  { c with strict := c.strict || strict, escape := c.escape || escape }

def Config.registry (c : Config) : Registry := { entries := c.datasources }

end FormDirectives
