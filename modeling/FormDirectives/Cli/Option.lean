/-! The commands of the program and their options. -/

namespace FormDirectives.Cli

inductive Command
  | render
  | check
  | tokens
  | ast
  | datasource
  deriving DecidableEq, Repr

/-- An option, which takes a value if it has a word for one. -/
structure Opt where
  short : Option String := none
  name : String
  valueName : Option String := none
  required : Bool := false
  help : String
  deriving DecidableEq, Repr

namespace Opt

def names (o : Opt) : List String := o.short.toList ++ [o.name]

def title (o : Opt) : String := "/".intercalate o.names

def showHelp : Opt where
  short := some "-h"
  name := "--help"
  help := "show this help message and exit"

def showVersion : Opt where
  name := "--version"
  help := "Show the mdxform version and exit."

def input : Opt where
  name := "--in"
  valueName := some "INPUT"
  required := true
  help := "Path to the MDX form source."

def output : Opt where
  name := "--out"
  valueName := some "OUTPUT"
  help := "File to write the HTML to (defaults to stdout)."

def config : Opt where
  name := "--config"
  valueName := some "CONFIG"
  help := "Path to mdxform.yaml."

def flag (name help : String) : Opt := { name, help }

end Opt

namespace Command

def all : List Command := [render, check, tokens, ast, datasource]

def name : Command → String
  | render => "render"
  | check => "check"
  | tokens => "tokens"
  | ast => "ast"
  | datasource => "datasource"

def ofName? (s : String) : Option Command := all.find? fun c => c.name = s

def summary : Command → String
  | render => "Render an MDX form to HTML."
  | check => "Report problems in an MDX form."
  | tokens => "Dump the directive tokens as JSON."
  | ast => "Dump the parsed form tree as JSON."
  | datasource => "Resolve or verify select datasources."

def description : Command → String
  | render => "Compile an MDX source file into an HTML fragment."
  | check => "Print every diagnostic; exit non-zero when any warning is found."
  | tokens => "Tokenize an MDX source and print the tokens."
  | ast => "Parse an MDX source and print the nested tree."
  | datasource =>
    "Print the options a datasource serves, or check that every dynamic select in a form has a registered " ++
      "datasource."

def options (c : Command) : List Opt :=
  Opt.showHelp :: match c with
  | render =>
    [.input, .output, .config, .flag "--strict" "Fail on unbalanced or mismatched form/group blocks.",
      .flag "--escape" "HTML-escape labels, options and attribute values.",
      .flag "--check" "Compare a fresh render with --out and print a diff when it is stale."]
  | check => [.input, .config, .flag "--strict" "Stop at the first structural problem."]
  | tokens | ast => [.input]
  | datasource =>
    [{ Opt.config with required := true, help := "Path to mdxform.yaml holding the datasources mapping." },
      { name := "--source", valueName := some "SOURCE", help := "Datasource key, e.g. /api/products." },
      { Opt.input with required := false, help := "MDX source whose dynamic selects should be verified." },
      .flag "--verify" "Check that every dynamic select in --in has a registered datasource.",
      .flag "--escape" "HTML-escape option values."]

end Command

def programName : String := "mdxform"

def programVersion : String := "0.1.0"

def programDescription : String := "Compile MDX form directives into htmx-ready HTML."

def programOptions : List Opt := [Opt.showHelp, Opt.showVersion]

end FormDirectives.Cli
