import FormDirectives.Json

/-! Reading JSON text. Members keep the order of the text, also when a key comes twice; numbers are integers. -/

namespace FormDirectives.Json.Reader

def isSpace (c : Char) : Bool := c = ' ' || c = '\n' || c = '\t' || c = '\r'

def skipSpace (cs : List Char) : List Char := cs.dropWhile isSpace

def hexValue? (c : Char) : Option Nat :=
  if '0' ≤ c ∧ c ≤ '9' then some (c.toNat - '0'.toNat)
  else if 'a' ≤ c ∧ c ≤ 'f' then some (c.toNat - 'a'.toNat + 10)
  else if 'A' ≤ c ∧ c ≤ 'F' then some (c.toNat - 'A'.toNat + 10)
  else none

def unit? (a b c d : Char) : Option Nat := do
  return (((← hexValue? a) * 16 + (← hexValue? b)) * 16 + (← hexValue? c)) * 16 + (← hexValue? d)

def escaped? : Char → Option Char
  | '"' => some '"'
  | '\\' => some '\\'
  | '/' => some '/'
  | 'n' => some '\n'
  | 'r' => some '\r'
  | 't' => some '\t'
  | 'b' => some '\x08'
  | 'f' => some '\x0c'
  | _ => none

/-- The characters that code points and escaped units stand for; a pair of surrogate units is one
    character. -/
def joinUnits : List Nat → List Char
  | [] => []
  | [u] => [Char.ofNat u]
  | u :: l :: rest =>
    if 0xd800 ≤ u ∧ u < 0xdc00 ∧ 0xdc00 ≤ l ∧ l < 0xe000 then
      Char.ofNat (0x10000 + (u - 0xd800) * 0x400 + (l - 0xdc00)) :: joinUnits rest
    else Char.ofNat u :: joinUnits (l :: rest)

/-- The code points and units up to the closing quote, in front of the reversed `acc`, and the text after
    it. -/
def units? (acc : List Nat) : List Char → Option (List Nat × List Char)
  | [] => none
  | '"' :: rest => some (acc.reverse, rest)
  | '\\' :: 'u' :: a :: b :: c :: d :: rest =>
    match unit? a b c d with
    | some u => units? (u :: acc) rest
    | none => none
  | '\\' :: c :: rest =>
    match escaped? c with
    | some c' => units? (c'.toNat :: acc) rest
    | none => none
  | c :: rest => units? (c.toNat :: acc) rest

def string? (cs : List Char) : Option (String × List Char) :=
  (units? [] cs).map fun r => (String.ofList (joinUnits r.1), r.2)

def natOfDigits (ds : List Char) : Nat := ds.foldl (fun n d => n * 10 + (d.toNat - '0'.toNat)) 0

def int? (cs : List Char) : Option (Int × List Char) :=
  match cs with
  | '-' :: rest =>
    let ds := rest.takeWhile Char.isDigit
    if ds = [] then none else some (-(natOfDigits ds : Int), rest.dropWhile Char.isDigit)
  | _ =>
    let ds := cs.takeWhile Char.isDigit
    if ds = [] then none else some ((natOfDigits ds : Int), cs.dropWhile Char.isDigit)

mutual

def value? : (fuel : Nat) → List Char → Option (Json × List Char)
  | 0, _ => none
  | fuel + 1, cs =>
    match skipSpace cs with
    | 'n' :: 'u' :: 'l' :: 'l' :: rest => some (.null, rest)
    | 't' :: 'r' :: 'u' :: 'e' :: rest => some (.bool true, rest)
    | 'f' :: 'a' :: 'l' :: 's' :: 'e' :: rest => some (.bool false, rest)
    | '"' :: rest => (string? rest).map fun r => (.string r.1, r.2)
    | '[' :: rest =>
      match skipSpace rest with
      | ']' :: rest' => some (.array [], rest')
      | rest' => (items? fuel rest').map fun r => (.array r.1, r.2)
    | '\x7b' :: rest =>
      match skipSpace rest with
      | '\x7d' :: rest' => some (.object [], rest')
      | rest' => (members? fuel rest').map fun r => (.object r.1, r.2)
    | rest => (int? rest).map fun r => (.int r.1, r.2)

def items? : (fuel : Nat) → List Char → Option (List Json × List Char)
  | 0, _ => none
  | fuel + 1, cs =>
    match value? fuel cs with
    | none => none
    | some (v, rest) =>
      match skipSpace rest with
      | ',' :: rest' => (items? fuel rest').map fun r => (v :: r.1, r.2)
      | ']' :: rest' => some ([v], rest')
      | _ => none

def members? : (fuel : Nat) → List Char → Option (List (String × Json) × List Char)
  | 0, _ => none
  | fuel + 1, cs =>
    match skipSpace cs with
    | '"' :: rest =>
      match string? rest with
      | none => none
      | some (k, rest) =>
        match skipSpace rest with
        | ':' :: rest =>
          match value? fuel rest with
          | none => none
          | some (v, rest) =>
            match skipSpace rest with
            | ',' :: rest' => (members? fuel rest').map fun r => ((k, v) :: r.1, r.2)
            | '\x7d' :: rest' => some ([(k, v)], rest')
            | _ => none
        | _ => none
    | _ => none

end

end Reader

/-- The value that the whole text writes, blanks around it apart. -/
def read? (text : String) : Option Json :=
  let cs := text.toList
  match Reader.value? (2 * cs.length + 2) cs with
  | some (v, rest) => if Reader.skipSpace rest = [] then some v else none
  | none => none

end FormDirectives.Json
