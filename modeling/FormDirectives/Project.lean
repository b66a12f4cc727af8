import FormDirectives.Compile
import FormDirectives.Config.Read
import FormDirectives.Diff.Unified
import FormDirectives.Failure
import FormDirectives.Yaml.Value

/-! Sources, configurations and rendered outputs as files of a store. -/

namespace FormDirectives
open Files

/-- Whether data is empty: null, false, zero, or a text or collection without content. -/
def Data.isEmpty : Data → Bool
  | .null => true
  | .bool b => !b
  | .int n => n = 0
  | .float x => x == 0.0
  | .text s => s = ""
  | .bytes b => b.size = 0
  | .moment _ => false
  | .list items => items.isEmpty
  | .set items => items.isEmpty
  | .map entries => entries.isEmpty

namespace Files.Store

/-- The text of a file that has to be there. -/
def readFile (s : Store) (p : Path) (missing : Failure) : Except Failure String := do
  match ← (s.lookup p).mapError .file with
  | some (.file _) => (s.read p).mapError .ofReadError
  | _ => .error missing

def readSource (s : Store) (p : Path) : Except Failure String := s.readFile p (.missingInput p)

/-- The options in a YAML text; an empty document leaves all defaults. -/
def configOfText (p : Path) (text : String) : Except Failure Config :=
  match Yaml.load text with
  | .error e => .error (.yaml e)
  | .ok data =>
    let data := if data.isEmpty then .map [] else data
    match data with
    | .map _ => (Config.ofData data).mapError (.invalidConfig p)
    | _ => .error (.configNoMapping p)

def loadConfig (s : Store) (p : Path) : Except Failure Config := do
  configOfText p (← s.readFile p (.missingConfig p))

/-- The stored form of a compilation's HTML. -/
def outputText (c : Compiled) : String := c.html ++ "\n"

def compileFile (s : Store) (input : Path) (config : Config) : Except Failure Compiled := do
  let source ← s.readSource input
  (compile config source).mapError .unbalanced

def writeText (s : Store) (p : Path) (text : String) : Store × Except Failure Unit :=
  match s.write p text with
  | (s', some e) => (s', .error (.file e))
  | (s', none) => (s', .ok ())

/-- Compiles a source and stores the HTML; nothing is stored unless the compilation succeeds. -/
def renderFile (s : Store) (input output : Path) (config : Config) : Store × Except Failure Compiled :=
  match s.compileFile input config with
  | .error f => (s, .error f)
  | .ok c =>
    match s.writeText output (outputText c) with
    | (s', .ok ()) => (s', .ok c)
    | (s', .error f) => (s', .error f)

/-- The changes that would make a stored output current, empty if it is. -/
def checkRendered (s : Store) (input output : Path) (config : Config) : Except Failure String := do
  let c ← s.compileFile input config
  let stored ← match ← (s.lookup output).mapError .file with
    | some _ => (s.read output).mapError .ofReadError
    | none => .ok ""
  if stored = outputText c then return ""
  return Diff.unified s!"current/{output.name}" s!"rendered/{output.name}" stored (outputText c)

end Files.Store
end FormDirectives
