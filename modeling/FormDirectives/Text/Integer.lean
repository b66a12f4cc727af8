import FormDirectives.Text.Blank

/-! Integers in text: blanks around them, a plus sign, zeros in front, single underscores between digits and a
    fraction of zeros are allowed. A negative number has no zeros in front. -/

namespace FormDirectives.Text.Integer

/-- Blank in Unicode's own sense, without the information separators. -/
def isSpace (c : Char) : Bool := isBlank c && !(0x1c ≤ c.toNat && c.toNat ≤ 0x1f)

def trim (cs : List Char) : List Char := ((cs.dropWhile isSpace).reverse.dropWhile isSpace).reverse

/-- The digits that follow zeros and underscores in front; one digit stays of zeros alone, and one zero
    before a point. -/
def afterZeros? (previous : Char) : List Char → Option (List Char)
  | [] => some [previous]
  | c :: rest =>
    if c = '0' ∨ (c = '_' ∧ previous = '0') then afterZeros? c rest
    else if '1' ≤ c ∧ c ≤ '9' then some (c :: rest)
    else if c = '.' then some (previous :: c :: rest)
    else none

def withoutZeros? : List Char → Option (List Char)
  | '0' :: rest => afterZeros? '0' rest
  | c :: rest => if ('1' ≤ c ∧ c ≤ '9') ∨ c = '-' then some (c :: rest) else none
  | [] => none

/-- The text before a point that only zeros follow. -/
def withoutFraction (cs : List Char) : List Char :=
  let fraction := (cs.dropWhile (· ≠ '.')).drop 1
  if fraction.all (· = '0') then cs.takeWhile (· ≠ '.') else cs

def doubled (c : Char) : List Char → Bool
  | a :: b :: rest => (a = c && b = c) || doubled c (b :: rest)
  | _ => false

def withoutUnderscores? (cs : List Char) : Option (List Char) :=
  if cs.head? = some '_' ∨ cs.getLast? = some '_' ∨ doubled '_' cs then none else some (cs.filter (· ≠ '_'))

def natOfDigits (ds : List Char) : Nat := ds.foldl (fun n d => n * 10 + (d.toNat - '0'.toNat)) 0

def digits? (cs : List Char) : Option Nat :=
  if cs ≠ [] ∧ cs.all Char.isDigit ∧ (cs.head? = some '0' → cs.length = 1) then some (natOfDigits cs) else none

def read? (s : String) : Option Int := do
  let cs ← match trim s.toList with
    | '+' :: '-' :: _ => none
    | '+' :: rest => some rest
    | cs => some cs
  match ← withoutUnderscores? (withoutFraction (← withoutZeros? cs)) with
  | '-' :: ds => (digits? ds).map fun n => -(n : Int)
  | ds => (digits? ds).map Int.ofNat

end FormDirectives.Text.Integer
