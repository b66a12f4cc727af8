/-! Text as UTF-8 bytes. Decoding refuses the first byte sequence that is no character and says where it
    stands and what is wrong with it: a byte that starts no character, a byte that cannot continue one, or an
    end of the data inside one. -/

namespace FormDirectives.Text.Utf8

inductive Reason
  | startByte
  | continuationByte
  | endOfData
  deriving DecidableEq, Repr

def Reason.message : Reason → String
  | .startByte => "invalid start byte"
  | .continuationByte => "invalid continuation byte"
  | .endOfData => "unexpected end of data"

/-- The bytes from `position` on, `length` of them, that are no character. -/
structure Fault where
  first : UInt8
  position : Nat
  length : Nat
  reason : Reason
  deriving DecidableEq, Repr

/-- What must follow the first byte of a character: so many bytes, the next one within bounds. -/
structure Lead where
  tails : Nat
  low : UInt8 := 0x80
  high : UInt8 := 0xbf

def lead? (b : UInt8) : Option Lead :=
  if b < 0x80 then some { tails := 0 }
  else if b < 0xc2 then none
  else if b < 0xe0 then some { tails := 1 }
  else if b = 0xe0 then some { tails := 2, low := 0xa0 }
  else if b = 0xed then some { tails := 2, high := 0x9f }
  else if b < 0xf0 then some { tails := 2 }
  else if b = 0xf0 then some { tails := 3, low := 0x90 }
  else if b < 0xf4 then some { tails := 3 }
  else if b = 0xf4 then some { tails := 3, high := 0x8f }
  else none

/-- How many of the owed tail bytes are there, and what stops the rest. -/
def tails : (owed : Nat) → (low high : UInt8) → List UInt8 → Nat × Option Reason
  | 0, _, _, _ => (0, none)
  | _ + 1, _, _, [] => (0, some .endOfData)
  | owed + 1, low, high, b :: rest =>
    if low ≤ b ∧ b ≤ high then
      let r := tails owed 0x80 0xbf rest
      (r.1 + 1, r.2)
    else (0, some .continuationByte)

def firstFault? (position : Nat) (bytes : List UInt8) : Option Fault :=
  match bytes with
  | [] => none
  | b :: rest =>
    match lead? b with
    | none => some { first := b, position, length := 1, reason := .startByte }
    | some l =>
      match tails l.tails l.low l.high rest with
      | (n, some reason) => some { first := b, position, length := n + 1, reason }
      | (n, none) => firstFault? (position + n + 1) (rest.drop n)
termination_by bytes.length
decreasing_by simp only [List.length_drop, List.length_cons]; omega

def hexByte (b : UInt8) : String :=
  String.ofList ['0', 'x', Nat.digitChar (b.toNat / 16), Nat.digitChar (b.toNat % 16)]

def Fault.message (f : Fault) : String :=
  let place :=
    if f.length = 1 then s!"byte {hexByte f.first} in position {f.position}"
    else s!"bytes in position {f.position}-{f.position + f.length - 1}"
  s!"'utf-8' codec can't decode {place}: {f.reason.message}"

/-- The text of the bytes; where they are none, the fault that stands first. -/
def decode (bytes : ByteArray) : Except Fault String :=
  match String.fromUTF8? bytes with
  | some s => .ok s
  | none =>
    let unknown : Fault := { first := 0, position := 0, length := 1, reason := .startByte }
    .error ((firstFault? 0 bytes.toList).getD unknown)

def encode (s : String) : ByteArray := s.toUTF8

end FormDirectives.Text.Utf8
