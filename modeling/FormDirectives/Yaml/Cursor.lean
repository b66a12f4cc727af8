import FormDirectives.Yaml.Error

/-! Where the reading of a document stands: the characters ahead, how many were read, and the line and the
    column. Classes of characters count the end of the document as what follows the last character. -/

namespace FormDirectives.Yaml

/-! ### Characters -/

/-- The characters that a document may hold. -/
def isAllowed (c : Char) : Bool :=
  c = '\t' || c = '\n' || c = '\r' || (0x20 ≤ c.toNat && c.toNat ≤ 0x7e) || c.toNat = 0x85 ||
    (0xa0 ≤ c.toNat && c.toNat ≤ 0xfffd) || 0x10000 ≤ c.toNat

def isBreak (c : Char) : Bool := c = '\n' || c = '\r' || c.toNat = 0x85 || c.toNat = 0x2028 || c.toNat = 0x2029

def isIdent (c : Char) : Bool := c.isAlphanum || c = '-' || c = '_'

def isHexDigit (c : Char) : Bool := c.isDigit || ('a' ≤ c && c ≤ 'f') || ('A' ≤ c && c ≤ 'F')

def hexValue (c : Char) : Nat :=
  if c.isDigit then c.toNat - '0'.toNat
  else if 'a' ≤ c ∧ c ≤ 'f' then c.toNat - 'a'.toNat + 10
  else c.toNat - 'A'.toNat + 10

def isUri (c : Char) : Bool := c.isAlphanum || "-;/?:@&=+$,_.!~*'()[]%".toList.contains c

/-- The end, or a character that holds. -/
def orEnd (holds : Char → Bool) : Option Char → Bool
  | none => true
  | some c => holds c

def isBreakOrEnd : Option Char → Bool := orEnd isBreak

def isSpaceOrEnd : Option Char → Bool := orEnd fun c => c = ' ' || isBreak c

def isBlankOrEnd : Option Char → Bool := orEnd fun c => c = ' ' || c = '\t' || isBreak c

/-! ### Cursors -/

structure Cursor where
  rest : List Char
  index : Nat := 0
  line : Nat := 0
  column : Nat := 0

namespace Cursor

def peek? (c : Cursor) : Option Char := c.rest.head?

def peekAt? (c : Cursor) (n : Nat) : Option Char := c.rest[n]?

def isAt (c : Cursor) (ch : Char) : Bool := c.rest.head? = some ch

/-- Past the next character. A carriage return before a line feed does not end a line by itself, and a byte
    order mark takes no column. -/
def next (c : Cursor) : Cursor :=
  match c.rest with
  | [] => c
  | ch :: rest =>
    if isBreak ch && !(ch = '\r' && rest.head? = some '\n') then
      { rest, index := c.index + 1, line := c.line + 1, column := 0 }
    else
      let column := if ch.toNat = 0xfeff then c.column else c.column + 1
      { rest, index := c.index + 1, line := c.line, column }

def skip (c : Cursor) : (n : Nat) → Cursor
  | 0 => c
  | n + 1 => c.next.skip n

def take (c : Cursor) (n : Nat) : List Char × Cursor := (c.rest.take n, c.skip n)

def takeWhile (c : Cursor) (holds : Char → Bool) : List Char × Cursor :=
  let cs := c.rest.takeWhile holds
  (cs, c.skip cs.length)

def skipWhile (c : Cursor) (holds : Char → Bool) : Cursor := (c.takeWhile holds).2

def skipSpaces (c : Cursor) : Cursor := c.skipWhile (· = ' ')

/-- The line break ahead, if there is one, as it counts in a text, and the cursor after it. -/
def lineBreak? (c : Cursor) : Option (Char × Cursor) :=
  match c.rest with
  | '\r' :: '\n' :: _ => some ('\n', c.skip 2)
  | ch :: _ =>
    if isBreak ch then some (if ch.toNat = 0x2028 ∨ ch.toNat = 0x2029 then ch else '\n', c.next) else none
  | [] => none

def skipLineBreak (c : Cursor) : Cursor := ((c.lineBreak?).map Prod.snd).getD c

/-- Three dashes or three points ahead that stand alone. -/
def isMarker (c : Cursor) (ch : Char) : Bool := c.rest.take 3 = [ch, ch, ch] && isBlankOrEnd (c.peekAt? 3)

def isDocumentMarker (c : Cursor) : Bool := c.isMarker '-' || c.isMarker '.'

/-- A comment and spaces before it, up to the end of the line; nothing else may stand there. -/
def ignoredLine (c : Cursor) : Except Error Cursor :=
  let c := c.skipSpaces
  let c := if c.isAt '#' then c.skipWhile fun ch => !isBreak ch else c
  if isBreakOrEnd c.peek? then .ok c.skipLineBreak else .error .token

end Cursor
end FormDirectives.Yaml
