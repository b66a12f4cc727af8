import FormDirectives.Json
import FormDirectives.OrderedMap

/-! Data that a configuration or a node is read from: what JSON and YAML documents hold. -/

namespace FormDirectives

/-- A calendar date with, perhaps, a time of the day and its distance from universal time in minutes. -/
structure Moment where
  year : Nat
  month : Nat
  day : Nat
  /-- Hour, minute, second and microsecond. -/
  time : Option (Nat × Nat × Nat × Nat) := none
  offset : Option Int := none
  deriving DecidableEq, Repr

inductive Data
  | null
  | bool (b : Bool)
  | int (n : Int)
  | float (x : Float)
  | text (s : String)
  | bytes (b : ByteArray)
  | moment (m : Moment)
  | list (items : List Data)
  | set (items : List Data)
  | map (entries : List (Data × Data))
  deriving Inhabited

mutual

/-- A key that comes twice in an object keeps its place and takes the later value. -/
def Json.toData : Json → Data
  | .null => .null
  | .bool b => .bool b
  | .int n => .int n
  | .string s => .text s
  | .array items => .list (itemsToData items)
  | .object members =>
    .map ((OrderedMap.ofList (membersToData members)).entries.map fun m => (.text m.1, m.2))

def Json.itemsToData : List Json → List Data
  | [] => []
  | x :: rest => x.toData :: Json.itemsToData rest

def Json.membersToData : List (String × Json) → List (String × Data)
  | [] => []
  | (k, v) :: rest => (k, v.toData) :: Json.membersToData rest

end

end FormDirectives
