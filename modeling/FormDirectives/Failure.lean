import FormDirectives.Data.Fault
import FormDirectives.Files.Store
import FormDirectives.Json.Writer
import FormDirectives.Tree.Build
import FormDirectives.Yaml.Error

/-! Why working on files fails. Some causes have words of their own, which the command line prints; the others
    are faults of the files themselves. -/

namespace FormDirectives

inductive Failure
  | missingInput (path : Files.Path)
  | missingConfig (path : Files.Path)
  | configNoMapping (path : Files.Path)
  | invalidConfig (path : Files.Path) (faults : List Fault)
  | unbalanced (error : StructureError)
  | checkWithoutOutput
  | verifyWithoutInput
  | sourceMissing
  | tooDeep (input : String)
  | unwritten (error : Json.WriteError)
  | undecodable (fault : Text.Utf8.Fault)
  | file (error : Files.FileError)
  | yaml (error : Yaml.Error)
  deriving DecidableEq

namespace Failure

/-- The words for a failure, if there are any. -/
def words? : Failure → Option String
  | missingInput path => some s!"Input file not found: {path}"
  | missingConfig path => some s!"Config file not found: {path}"
  | configNoMapping path => some s!"{path} must contain a mapping of compiler options."
  | invalidConfig path _ => some s!"Invalid compiler config in {path}: "
  | unbalanced error => some s!"Structural error: {error.diagnostic.format}"
  | checkWithoutOutput => some "--check requires --out pointing at the stored output."
  | verifyWithoutInput => some "--verify requires --in pointing at an MDX source."
  | sourceMissing => some "--source is required unless --verify is given."
  | tooDeep input => some s!"{input}: containers are nested too deeply to dump as JSON."
  | unwritten _ | undecodable _ | file _ | yaml _ => none

/-- The text that reports a failure, with a line for each fault of a configuration. -/
def message (f : Failure) : String :=
  match f with
  | unwritten error => error.message
  | undecodable fault => fault.message
  | file error => error.message
  | yaml error => error.message
  | invalidConfig _ faults => "\n  ".intercalate (f.words?.getD "" :: faults.map Fault.message)
  | _ => f.words?.getD ""

def ofReadError : Files.Store.ReadError → Failure
  | .file e => file e
  | .undecodable f => undecodable f

end Failure
end FormDirectives
