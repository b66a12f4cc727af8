import FormDirectives.Config
import FormDirectives.Html.Render
import FormDirectives.Tree.Build

/-! Compiling a source: its lines are read into tokens, the tokens are built into a tree, and the tree is
    rendered. The diagnostics of the three stages follow each other. -/

namespace FormDirectives

structure Compiled where
  html : String
  tree : Tree
  diagnostics : List Diagnostic

namespace Compiled

def warnings (c : Compiled) : List Diagnostic := c.diagnostics.filter Diagnostic.isWarning

end Compiled

/-- What a source compiles to once it is parsed. -/
def Parsed.compiled (config : Config) (source : String) (p : Parsed) : Compiled where
  html := p.tree.html config.escape
  tree := p.tree
  diagnostics := lineDiagnostics source ++ p.diagnostics ++ p.tree.renderDiagnostics config.escape

def compile (config : Config) (source : String) : Except StructureError Compiled :=
  (parse config.strict (tokenize source)).map (Parsed.compiled config source)

/-- A tree built without refusing anything. -/
def parseLenient (tokens : List Token) : Parsed :=
  match parse false tokens with
  | .ok parsed => parsed
  | .error _ => { tree := .start, diagnostics := [] }

/-- The HTML of a source under the default options. -/
def compileHtml (source : String) : String := (parseLenient (tokenize source)).tree.html false

end FormDirectives
