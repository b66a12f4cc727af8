import FormDirectives.Cli.Arguments
import FormDirectives.Cli.Help
import FormDirectives.Json.Writer
import FormDirectives.Project
import FormDirectives.Tree.Outline

/-! Running a command line on a store of files: what it prints, how it ends, and the store that it leaves. Only
    a successful rendering to a file writes one. -/

namespace FormDirectives.Cli
open Files

inductive Ending
  | exit (code : Nat)
  | failure (f : Failure)
  deriving DecidableEq

namespace Ending

/-- The status that the process ends with. -/
def status : Ending → Nat
  | exit code => code
  | failure _ => 1

/-- What is said of a failure after everything else. -/
def text : Ending → String
  | exit _ => ""
  | failure f => f.message ++ "\n"

end Ending

structure Outcome where
  store : Store
  stdout : String := ""
  stderr : String := ""
  ending : Ending := .exit 0
  deriving DecidableEq

namespace Outcome

def fail (s : Store) (f : Failure) : Outcome := { store := s, ending := .failure f }

def print (s : Store) (text : String) : Outcome := { store := s, stdout := text }

/-- All that goes to the error stream. -/
def errors (o : Outcome) : String := o.stderr ++ o.ending.text

end Outcome

/-- Text with a line feed after each line. -/
def lines (ls : List String) : String := String.join (ls.map (· ++ "\n"))

def nonempty? (value : Option String) : Option String := value.filter (· ≠ "")

def Arguments.inputPath (a : Arguments) : Path := .ofString (a.input.getD "")

/-- The options of a configuration file, if one is named, with the flags put on top. -/
def resolveConfig (s : Store) (a : Arguments) : Except Failure Config := do
  let config ← match nonempty? a.config with
    | some path => s.loadConfig (.ofString path)
    | none => .ok {}
  return config.withFlags a.strict a.escape

/-! ### Commands -/

def checkOutput (s : Store) (a : Arguments) (config : Config) : Outcome :=
  match nonempty? a.output with
  | none => .fail s .checkWithoutOutput
  | some output =>
    match s.checkRendered a.inputPath (.ofString output) config with
    | .error f => .fail s f
    | .ok diff =>
      if diff = "" then .print s s!"{output} is up to date.\n"
      else { store := s, stderr := diff, ending := .exit 1 }

def writeOutput (s : Store) (a : Arguments) (c : Compiled) : Outcome :=
  let warnings := lines (c.warnings.map Diagnostic.format)
  match nonempty? a.output with
  | none => { store := s, stdout := Store.outputText c, stderr := warnings }
  | some output =>
    match s.writeText (.ofString output) (Store.outputText c) with
    | (s', .error f) => { store := s', stderr := warnings, ending := .failure f }
    | (s', .ok ()) =>
      { store := s', stdout := s!"Rendered {a.inputPath} to {output}.\n", stderr := warnings }

def runRender (s : Store) (a : Arguments) : Outcome :=
  match resolveConfig s a with
  | .error f => .fail s f
  | .ok config =>
    if a.check then checkOutput s a config
    else
      match s.compileFile a.inputPath config with
      | .error f => .fail s f
      | .ok c => writeOutput s a c

def runCheck (s : Store) (a : Arguments) : Outcome :=
  match resolveConfig s a >>= s.compileFile a.inputPath with
  | .error f => .fail s f
  | .ok c =>
    let found := lines (c.diagnostics.map fun d => s!"{a.inputPath}: {d.format}")
    if hasWarnings c.diagnostics then { store := s, stdout := found, ending := .exit 1 }
    else .print s (found ++ s!"No structural problems found in {a.inputPath}.\n")

/-- How many arrays and objects, one inside the other, there is room for when a command writes JSON text: at most a
    thousand calls can be open, and a few are by then. -/
def dumpRoom : Nat := 980

def runTokens (s : Store) (a : Arguments) : Outcome :=
  match s.readSource a.inputPath with
  | .error f => .fail s f
  | .ok source =>
    match (Json.array ((tokenize source).map Token.toJson)).dump dumpRoom false with
    | .ok text => .print s text
    | .error e => .fail s (.unwritten e)

def runAst (s : Store) (a : Arguments) : Outcome :=
  match s.readSource a.inputPath with
  | .error f => .fail s f
  | .ok source =>
    match (parseLenient (tokenize source)).tree.outline? 0 with
    | none => .fail s (.tooDeep (a.input.getD ""))
    | some outline =>
      match outline.dump dumpRoom false with
      | .ok text => .print s text
      | .error .nesting => .fail s (.tooDeep (a.input.getD ""))
      | .error .digits => .fail s (.unwritten .digits)

def verifySources (s : Store) (a : Arguments) (r : Registry) : Outcome :=
  match nonempty? a.input with
  | none => .fail s .verifyWithoutInput
  | some input =>
    match s.readSource (.ofString input) with
    | .error f => .fail s f
    | .ok source =>
      let missing := r.missing (parseLenient (tokenize source)).tree
      let config := a.config.getD ""
      if missing.isEmpty then .print s s!"All datasources used by {input} are registered.\n"
      else
        { store := s
          stderr := lines (missing.map fun m => s!"{input}: datasource '{m}' is not registered in {config}")
          ending := .exit 1 }

def printOptions (s : Store) (a : Arguments) (config : Config) : Outcome :=
  match nonempty? a.source with
  | none => .fail s .sourceMissing
  | some source =>
    { store := s
      stdout := config.registry.optionsHtml (a.escape || config.escape) source ++ "\n"
      stderr :=
        if config.registry.contains source then ""
        else s!"Datasource '{source}' is not registered; returning no options.\n" }

def runDatasource (s : Store) (a : Arguments) : Outcome :=
  match s.loadConfig (.ofString (a.config.getD "")) with
  | .error f => .fail s f
  | .ok config => if a.verify then verifySources s a config.registry else printOptions s a config

def runCommand (s : Store) (a : Arguments) : Command → Outcome
  | .render => runRender s a
  | .check => runCheck s a
  | .tokens => runTokens s a
  | .ast => runAst s a
  | .datasource => runDatasource s a

/-! ### Command lines -/

def stopped (s : Store) : Stop → Outcome
  | .help c => .print s (help c)
  | .version => .print s s!"{programName} {programVersion}\n"
  | .usage c e =>
    { store := s, stderr := usage c ++ s!"{fullName c}: error: {e.message}\n", ending := .exit 2 }

def run (s : Store) (args : List String) : Outcome :=
  match read args with
  | .ok (c, a) => runCommand s a c
  | .error stop => stopped s stop

end FormDirectives.Cli
