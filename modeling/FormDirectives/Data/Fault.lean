import FormDirectives.Data
import FormDirectives.Text.Decimal
import FormDirectives.Text.Quoted

/-! What is wrong with data, and where. -/

namespace FormDirectives

/-- A step from a value into one of its parts. -/
inductive Step
  | name (s : String)
  | index (n : Int)
  deriving DecidableEq, Repr

inductive Problem
  | boolParsing
  | boolType
  | intParsing
  | intType
  | stringType
  | stringUnicode
  | listType
  | tableType
  | optionsType
  | extraForbidden
  | invalidKey
  | missing
  | literal (expected : String)
  deriving DecidableEq, Repr

structure Fault where
  place : List Step
  problem : Problem
  deriving DecidableEq, Repr

namespace Problem

def code : Problem → String
  | boolParsing => "bool_parsing"
  | boolType => "bool_type"
  | intParsing => "int_parsing"
  | intType => "int_type"
  | stringType => "string_type"
  | stringUnicode => "string_unicode"
  | listType => "list_type"
  | tableType => "dict_type"
  | optionsType => "model_type"
  | extraForbidden => "extra_forbidden"
  | invalidKey => "invalid_key"
  | missing => "missing"
  | literal _ => "literal_error"

def message : Problem → String
  | boolParsing => "Input should be a valid boolean, unable to interpret input"
  | boolType => "Input should be a valid boolean"
  | intParsing => "Input should be a valid integer, unable to parse string as an integer"
  | intType => "Input should be a valid integer"
  | stringType => "Input should be a valid string"
  | stringUnicode => "Input should be a valid string, unable to parse raw data as a unicode string"
  | listType => "Input should be a valid list"
  | tableType => "Input should be a valid dictionary"
  | optionsType => "Input should be a valid dictionary or instance of CompilerConfig"
  | extraForbidden => "Extra inputs are not permitted"
  | invalidKey => "Keys should be strings"
  | missing => "Field required"
  | literal expected => s!"Input should be '{expected}'"

end Problem

def Step.text : Step → String
  | name s => s
  | index n => toString n

def Fault.message (f : Fault) : String :=
  let place := ".".intercalate (f.place.map Step.text)
  if place = "" then f.problem.message else s!"{place}: {f.problem.message}"

/-- The fault seen from the value that `step` leads out of. -/
def Fault.under (step : Step) (f : Fault) : Fault := { f with place := step :: f.place }

/-! ### Reading and collecting faults -/

abbrev Read (α : Type) := Except (List Fault) α

namespace Read
variable {α β : Type}

def fail (p : Problem) : Read α := .error [{ place := [], problem := p }]

def under (step : Step) : Read α → Read α
  | .ok a => .ok a
  | .error fs => .error (fs.map (Fault.under step))

/-- Both values, or the faults of either. -/
def both : Read α → Read β → Read (α × β)
  | .ok a, .ok b => .ok (a, b)
  | .ok _, .error fs => .error fs
  | .error fs, .ok _ => .error fs
  | .error fs, .error gs => .error (fs ++ gs)

/-- All values, or the faults of all that have any. -/
def all : List (Read α) → Read (List α)
  | [] => .ok []
  | r :: rest =>
    match both r (all rest) with
    | .ok (a, as) => .ok (a :: as)
    | .error fs => .error fs

end Read

/-! ### Keys -/

namespace Data

def byteText (mark : Char) (b : UInt8) : List Char :=
  let c := Char.ofNat b.toNat
  if c = mark ∨ c = '\\' then ['\\', c]
  else if c = '\n' then ['\\', 'n']
  else if c = '\r' then ['\\', 'r']
  else if c = '\t' then ['\\', 't']
  else if 0x20 ≤ b ∧ b < 0x7f then [c]
  else '\\' :: 'x' :: Text.hex 2 b.toNat

def bytesText (b : ByteArray) : String :=
  let bs := b.toList
  let mark := Text.quoteMark (bs.map fun b => Char.ofNat b.toNat)
  String.ofList ('b' :: mark :: (bs.flatMap (byteText mark) ++ [mark]))

/-- The text of a distance from universal time: whole days, rounded down, and seconds. -/
def offsetText (minutes : Int) : String :=
  let days := minutes / 1440
  let seconds := minutes % 1440 * 60
  let parts := (if days = 0 then [] else [s!"days={days}"]) ++
    (if seconds = 0 then [] else [s!"seconds={seconds}"])
  "datetime.timedelta(" ++ ", ".intercalate (if parts = [] then ["0"] else parts) ++ ")"

def zoneText (minutes : Int) : String :=
  if minutes = 0 then "datetime.timezone.utc" else s!"datetime.timezone({offsetText minutes})"

def momentText (m : Moment) : String :=
  let date := s!"{m.year}, {m.month}, {m.day}"
  match m.time with
  | none => s!"datetime.date({date})"
  | some (hour, minute, second, micro) =>
    let fine :=
      if micro ≠ 0 then s!", {second}, {micro}" else if second ≠ 0 then s!", {second}" else ""
    let zone := match m.offset with
      | none => ""
      | some minutes => s!", tzinfo={zoneText minutes}"
    s!"datetime.datetime({date}, {hour}, {minute}{fine}{zone})"

/-- The text that stands for a key that is neither a string nor a small integer. -/
def keyText : Data → String
  | .null => "None"
  | .bool b => if b then "True" else "False"
  | .int n => toString n
  | .float x => Text.floatText x
  | .text s => s
  | .bytes b => bytesText b
  | .moment m => momentText m
  | .list _ => "[]"
  | .set _ => "set()"
  | .map _ => "\x7b\x7d"

/-- Whether an integer fits into 64 bits with a sign. -/
def isSmall (n : Int) : Bool := -0x8000000000000000 ≤ n && n ≤ 0x7fffffffffffffff

/-- The step that a key stands for; truth values count as zero and one. -/
def step : Data → Step
  | .bool b => .index (if b then 1 else 0)
  | .int n => if isSmall n then .index n else .name (toString n)
  | d => .name d.keyText

end Data

end FormDirectives
