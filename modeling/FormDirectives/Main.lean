import FormDirectives.Cli.Run

/-! The program. The files that a command line names are taken from disk into a store, the command runs on the
    store, and what it changed there is written back. -/

namespace FormDirectives.Disk
open Files

def placeText : Place → String
  | "/" :: parts => "/" ++ "/".intercalate parts
  | parts => "/".intercalate parts

/-- What stands at a place whose parent is a directory. -/
def item? (p : Place) : IO (Option Item) := do
  try
    return some (.file (← IO.FS.readBinFile (placeText p)))
  catch
    | .inappropriateType .. => return some .directory
    | .noFileOrDirectory .. => return none
    | e => throw e

/-- Takes what stands along a path into the store, as far as there are directories to go through. -/
def take (s : Store) (here : Place) : List String → IO Store
  | [] => return s
  | part :: rest => do
    let next := if part = ".." then Store.up here else here ++ [part]
    let found ← match s.item? next with
      | some i => pure (some i)
      | none => item? next
    match found with
    | none => return s
    | some i =>
      let s := if Store.isFixed next then s else s.put next i
      if i = .directory then take s next rest else return s

def takePath (s : Store) (text : String) : IO Store :=
  let p := Path.ofString text
  take s (if p.anchor = .relative then [] else ["/"]) p.parts

/-- Writes what `after` has and `before` has not, directories first as they were made. -/
def give (before after : Store) : IO Unit :=
  after.items.entries.forM fun e =>
    if before.items.get? e.1 = some e.2 then pure ()
    else match e.2 with
      | .directory => IO.FS.createDir (placeText e.1)
      | .file content => IO.FS.writeBinFile (placeText e.1) content

/-- The files that a command line names. -/
def named (args : List String) : List String :=
  match Cli.read args with
  | .ok (_, a) => [a.input, a.output, a.config].filterMap id
  | .error _ => []

def run (args : List String) : IO UInt32 := do
  let before ← (named args).foldlM takePath {}
  let o := Cli.run before args
  give before o.store
  IO.print o.stdout
  IO.eprint o.errors
  return o.ending.status.toUInt32

end FormDirectives.Disk

def main (args : List String) : IO UInt32 := do
  try
    FormDirectives.Disk.run args
  catch e =>
    IO.eprintln e
    return 1
