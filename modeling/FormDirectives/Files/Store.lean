import FormDirectives.Files.Path
import FormDirectives.OrderedMap
import FormDirectives.Text.Lines
import FormDirectives.Text.Quoted
import FormDirectives.Text.Utf8

/-! Files. A store holds the files and directories that are known below and beside the working directory;
    paths are followed part by part, so every part but the last has to be a directory. -/

namespace FormDirectives.Files

/-- The parts of a place from the working directory on; a place under the root starts with `/`. -/
abbrev Place := List String

inductive Item
  | directory
  | file (content : ByteArray)

instance : DecidableEq Item
  | .directory, .directory => .isTrue rfl
  | .file a, .file b =>
    match ByteArray.instDecidableEq a b with
    | .isTrue h => .isTrue (congrArg Item.file h)
    | .isFalse h => .isFalse fun e => h (Item.file.inj e)
  | .directory, .file _ => .isFalse nofun
  | .file _, .directory => .isFalse nofun

structure Store where
  items : OrderedMap Place Item := ∅
  deriving DecidableEq

instance : Inhabited Store := ⟨{}⟩

inductive FileError.Kind
  | notFound
  | exists
  | notDirectory
  | isDirectory
  | nameTooLong
  | nullByte
  deriving DecidableEq, Repr

structure FileError where
  kind : FileError.Kind
  path : Path
  deriving DecidableEq, Repr

def FileError.Kind.reason : FileError.Kind → String
  | .notFound => "[Errno 2] No such file or directory"
  | .exists => "[Errno 17] File exists"
  | .notDirectory => "[Errno 20] Not a directory"
  | .isDirectory => "[Errno 21] Is a directory"
  | .nameTooLong => "[Errno 36] File name too long"
  | .nullByte => "embedded null byte"

def FileError.message (e : FileError) : String :=
  if e.kind = .nullByte then e.kind.reason else s!"{e.kind.reason}: {Text.quoted e.path.toString}"

namespace Store

/-- The places that are directories in every store: the working directory, those above it, and the root. -/
def isFixed (p : Place) : Bool := p.all (· = "..") || p = ["/"]

def item? (s : Store) (p : Place) : Option Item := if isFixed p then some .directory else s.items.get? p

def up (p : Place) : Place :=
  if p = ["/"] then p else if p.all (· = "..") then p ++ [".."] else p.dropLast

/-- The greatest number of bytes of a path and of one part of it. -/
def maxPathSize : Nat := 4095

def maxPartSize : Nat := 255

/-- Follows the parts of a path from a place that is a directory; the last part need not be there. -/
def follow (s : Store) (here : Place) : List String → Except FileError.Kind Place
  | [] => .ok here
  | part :: rest =>
    let next := if part = ".." then up here else here ++ [part]
    if maxPartSize < part.utf8ByteSize then .error .nameTooLong
    else
      match rest with
      | [] => .ok next
      | _ :: _ =>
        match s.item? next with
        | some .directory => s.follow next rest
        | some (.file _) => .error .notDirectory
        | none => .error .notFound

def place (s : Store) (p : Path) : Except FileError.Kind Place :=
  let text := p.toString
  if '\x00' ∈ text.toList then .error .nullByte
  else if maxPathSize < text.utf8ByteSize then .error .nameTooLong
  else s.follow (if p.anchor = .relative then [] else ["/"]) p.parts

/-- What stands at a path, if anything does. That nothing does can be told of every path that is not too long. -/
def lookup (s : Store) (p : Path) : Except FileError (Option Item) :=
  match s.place p with
  | .ok at' => .ok (s.item? at')
  | .error .nameTooLong => .error { kind := .nameTooLong, path := p }
  | .error _ => .ok none

def isDirectory (s : Store) (p : Path) : Bool :=
  match s.lookup p with
  | .ok (some .directory) => true
  | _ => false

/-! ### Reading -/

inductive ReadError
  | file (e : FileError)
  | undecodable (f : Text.Utf8.Fault)
  deriving DecidableEq, Repr

/-- The text of a file with its line ends normalised. -/
def read (s : Store) (p : Path) : Except ReadError String :=
  match s.place p with
  | .error kind => .error (.file { kind, path := p })
  | .ok at' =>
    match s.item? at' with
    | none => .error (.file { kind := .notFound, path := p })
    | some .directory => .error (.file { kind := .isDirectory, path := p })
    | some (.file content) =>
      match Text.Utf8.decode content with
      | .error f => .error (.undecodable f)
      | .ok text => .ok (String.ofList (Text.normalizeNewlines text.toList))

/-! ### Writing -/

def put (s : Store) (p : Place) (i : Item) : Store := { items := s.items.insert p i }

/-- Makes one directory; its parent has to be there. -/
def makeDirectory (s : Store) (p : Path) : Except FileError.Kind Store :=
  match s.place p with
  | .error kind => .error kind
  | .ok at' =>
    match s.item? at' with
    | some _ => .error .exists
    | none =>
      match s.item? (up at') with
      | some .directory => .ok (s.put at' .directory)
      | some (.file _) => .error .notDirectory
      | none => .error .notFound

/-- Makes a directory and those above it, unless they are there. -/
def makeDirectories (s : Store) (p : Path) : (depth : Nat) → Store × Option FileError
  | 0 => (s, some { kind := .notFound, path := p })
  | depth + 1 =>
    match s.makeDirectory p with
    | .ok s' => (s', none)
    | .error .notFound =>
      match s.makeDirectories p.parent depth with
      | (s', some e) => (s', some e)
      | (s', none) =>
        match s'.makeDirectory p with
        | .ok s'' => (s'', none)
        | .error kind => (s', if s'.isDirectory p then none else some { kind, path := p })
    | .error kind => (s, if s.isDirectory p then none else some { kind, path := p })

/-- Puts a file, in a directory that is there. -/
def writeFile (s : Store) (p : Path) (content : ByteArray) : Store × Option FileError :=
  match s.place p with
  | .error kind => (s, some { kind, path := p })
  | .ok at' =>
    match s.item? at' with
    | some .directory => (s, some { kind := .isDirectory, path := p })
    | some (.file _) => (s.put at' (.file content), none)
    | none =>
      match s.item? (up at') with
      | some .directory => (s.put at' (.file content), none)
      | some (.file _) => (s, some { kind := .notDirectory, path := p })
      | none => (s, some { kind := .notFound, path := p })

/-- Writes a text as UTF-8; the directories above the file are made. -/
def write (s : Store) (p : Path) (text : String) : Store × Option FileError :=
  let made := if p.parent.isHere then (s, none) else s.makeDirectories p.parent (p.parts.length + 1)
  match made with
  | (s', some e) => (s', some e)
  | (s', none) => s'.writeFile p (Text.Utf8.encode text)

end Store
end FormDirectives.Files
