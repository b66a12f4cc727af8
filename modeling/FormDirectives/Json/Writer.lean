import FormDirectives.Json
import FormDirectives.Text.Digit

/-! The written form of JSON values: two spaces for each level, one item or member a line, nothing between
    the brackets of an empty container, non-ASCII text as it is, and one line feed after the value. A value that is
    nested too deep, or that holds too long an integer, is not written. -/

namespace FormDirectives.Json

/-! ### Strings -/

def stringChar (c : Char) : List Char :=
  if c = '"' ∨ c = '\\' then ['\\', c]
  else if c = '\n' then ['\\', 'n']
  else if c = '\r' then ['\\', 'r']
  else if c = '\t' then ['\\', 't']
  else if c = '\x08' then ['\\', 'b']
  else if c = '\x0c' then ['\\', 'f']
  else if c.toNat < 0x20 then
    ['\\', 'u', '0', '0', Nat.digitChar (c.toNat / 16), Nat.digitChar (c.toNat % 16)]
  else [c]

def stringChars (s : String) : List Char := '"' :: (s.toList.flatMap stringChar ++ ['"'])

/-! ### Values -/

def newline (depth : Nat) : List Char := '\n' :: List.replicate (2 * depth) ' '

/-- A container's lines between its brackets: the first item, then each further one after a comma. -/
def block (depth : Nat) (left right : Char) (first rest : List Char) : List Char :=
  left :: (newline (depth + 1) ++ first ++ rest ++ newline depth ++ [right])

mutual

def chars (depth : Nat) : Json → List Char
  | .null => "null".toList
  | .bool true => "true".toList
  | .bool false => "false".toList
  | .int n => (toString n).toList
  | .string s => stringChars s
  | .array [] => ['[', ']']
  | .array (x :: rest) => block depth '[' ']' (chars (depth + 1) x) (itemsChars (depth + 1) rest)
  | .object [] => ['\x7b', '\x7d']
  | .object ((k, v) :: rest) =>
    block depth '\x7b' '\x7d' (stringChars k ++ [':', ' '] ++ chars (depth + 1) v)
      (membersChars (depth + 1) rest)

def itemsChars (depth : Nat) : List Json → List Char
  | [] => []
  | x :: rest => ',' :: (newline depth ++ chars depth x ++ itemsChars depth rest)

def membersChars (depth : Nat) : List (String × Json) → List Char
  | [] => []
  | (k, v) :: rest =>
    ',' :: (newline depth ++ stringChars k ++ [':', ' '] ++ chars depth v ++ membersChars depth rest)

end

/-! ### Sorted members -/

mutual

/-- The same value with the members of every object in the order of their keys' code points. -/
def sortKeys : Json → Json
  | .array items => .array (sortItems items)
  | .object members => .object ((sortMembers members).mergeSort fun a b => decide (a.1 ≤ b.1))
  | .null => .null
  | .bool b => .bool b
  | .int n => .int n
  | .string s => .string s

def sortItems : List Json → List Json
  | [] => []
  | x :: rest => sortKeys x :: sortItems rest

def sortMembers : List (String × Json) → List (String × Json)
  | [] => []
  | (k, v) :: rest => (k, sortKeys v) :: sortMembers rest

end

/-- The text of a value of any size. -/
def write (sorted : Bool) (v : Json) : String :=
  String.ofList (chars 0 (if sorted then sortKeys v else v) ++ ['\n'])

/-! ### Limits

Each array or object takes an open call while it is written, and only so many can be open. An integer with too many
digits is refused. -/

/-- What the writing of a value can stop at. -/
inductive WriteError
  | digits
  | nesting
  deriving DecidableEq, Repr

def WriteError.message : WriteError → String
  | digits => "an integer has too many digits to write"
  | nesting => "a value is nested too deeply to write"

/-- Whether an integer has no more digits than are written. -/
def isShort (n : Int) : Bool := n.natAbs < Text.overlong

mutual

/-- What the writing of a value stops at, if it does, where there is room for so many arrays and objects, one inside the
    other. -/
def obstacle? : (room : Nat) → Json → Option WriteError
  | _, .null | _, .bool _ | _, .string _ => none
  | _, .int n => if isShort n then none else some .digits
  | 0, .array _ | 0, .object _ => some .nesting
  | room + 1, .array items => itemsObstacle? room items
  | room + 1, .object members => membersObstacle? room members

def itemsObstacle? (room : Nat) : List Json → Option WriteError
  | [] => none
  | x :: rest => (obstacle? room x).or (itemsObstacle? room rest)

def membersObstacle? (room : Nat) : List (String × Json) → Option WriteError
  | [] => none
  | (_, v) :: rest => (obstacle? room v).or (membersObstacle? room rest)

end

/-- The text of a value, where there is room for so many arrays and objects, one inside the other, unless something stands
    in the way; what comes first in the text is met first. -/
def dump (room : Nat) (sorted : Bool) (v : Json) : Except WriteError String :=
  match obstacle? room (if sorted then sortKeys v else v) with
  | some e => .error e
  | none => .ok (v.write sorted)

end FormDirectives.Json
