import FormDirectives.Data.Fault
import FormDirectives.Text.Integer

/-! Reading data as truth values, numbers, texts, lists and tables. Truth values and numbers are read leniently;
    every part that cannot be read is reported. -/

namespace FormDirectives.Data
open Text

/-! ### Truth values -/

def boolOfText? (s : String) : Option Bool :=
  let word := String.ofList (s.toList.map Char.toLower)
  if word ∈ ["1", "true", "t", "yes", "y", "on"] then some true
  else if word ∈ ["0", "false", "f", "no", "n", "off"] then some false
  else none

def boolOfInt? (n : Int) : Option Bool := if n = 1 then some true else if n = 0 then some false else none

def parsedBool : Option Bool → Read Bool
  | some b => .ok b
  | none => .fail .boolParsing

def readBool : Data → Read Bool
  | .bool b => .ok b
  | .text s => parsedBool (boolOfText? s)
  | .bytes b => parsedBool ((String.fromUTF8? b).bind boolOfText?)
  | .int n => if isSmall n then parsedBool (boolOfInt? n) else .fail .boolType
  | .float x =>
    match floatInt? x with
    | some n => if isSmall n then parsedBool (boolOfInt? n) else .fail .boolType
    | none => .fail .boolType
  | _ => .fail .boolType

/-! ### Numbers and texts -/

def readInt : Data → Read Int
  | .bool b => .ok (if b then 1 else 0)
  | .int n => .ok n
  | .text s =>
    match Integer.read? s with
    | some n => .ok n
    | none => .fail .intParsing
  | _ => .fail .intType

def readString : Data → Read String
  | .text s => .ok s
  | .bytes b =>
    match String.fromUTF8? b with
    | some s => .ok s
    | none => .fail .stringUnicode
  | _ => .fail .stringType

/-! ### Lists and tables -/

def readItems {α : Type} (item : Data → Read α) (items : List Data) : Read (List α) :=
  .all (items.zipIdx.map fun d => (item d.1).under (.index d.2))

def readList {α : Type} (item : Data → Read α) : Data → Read (List α)
  | .list items | .set items => readItems item items
  | _ => .fail .listType

def readEntry {α : Type} (value : Data → Read α) (e : Data × Data) : Read (String × α) :=
  .both (((readString e.1).under (.name "[key]")).under e.1.step) ((value e.2).under e.1.step)

/-- A table of values under string keys. -/
def readTable {α : Type} (value : Data → Read α) : Data → Read (OrderedMap String α)
  | .map entries =>
    match Read.all (entries.map (readEntry value)) with
    | .ok es => .ok (OrderedMap.ofList es)
    | .error fs => .error fs
  | _ => .fail .tableType

end FormDirectives.Data
