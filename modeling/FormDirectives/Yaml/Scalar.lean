import FormDirectives.Yaml.Cursor

/-! Scalars: plain, quoted, and block text. Line breaks inside a plain or quoted scalar are folded: one break
    is a space, and further breaks stay. -/

namespace FormDirectives.Yaml

/-! ### Quoted scalars -/

def escapeChar? : Char → Option Char
  | '0' => some (Char.ofNat 0)
  | 'a' => some '\x07'
  | 'b' => some '\x08'
  | 't' | '\t' => some '\t'
  | 'n' => some '\n'
  | 'v' => some '\x0b'
  | 'f' => some '\x0c'
  | 'r' => some '\r'
  | 'e' => some '\x1b'
  | ' ' => some ' '
  | '"' => some '"'
  | '\\' => some '\\'
  | '/' => some '/'
  | 'N' => some (Char.ofNat 0x85)
  | '_' => some (Char.ofNat 0xa0)
  | 'L' => some (Char.ofNat 0x2028)
  | 'P' => some (Char.ofNat 0x2029)
  | _ => none

def escapeWidth? : Char → Option Nat
  | 'x' => some 2
  | 'u' => some 4
  | 'U' => some 8
  | _ => none

/-- The character with a number. The halves of a surrogate pair are no characters, and no text holds one: a document
with such an escape is not loaded. -/
def charOfCode (n : Nat) : Except Error Char :=
  if n.isValidChar then .ok (Char.ofNat n)
  else if n < 0x80000000 then .error .charRange
  else .error .charOverflow

/-- The character that the hexadecimal digits ahead name. -/
def hexEscape (width : Nat) (c : Cursor) : Except Error (Char × Cursor) := do
  let (ds, c) := c.take width
  if ds.length = width ∧ ds.all isHexDigit then
    return (← charOfCode (ds.foldl (fun n d => n * 16 + hexValue d) 0), c)
  else .error .token

/-- The breaks of the blank lines ahead; a document marker may not stand at the start of a line. -/
def quotedBreaks : (fuel : Nat) → Cursor → Except Error (List Char × Cursor)
  | 0, _ => .error .token
  | fuel + 1, c =>
    if c.isDocumentMarker then .error .token
    else
      let c := c.skipWhile fun ch => ch = ' ' || ch = '\t'
      match c.lineBreak? with
      | some (b, c) => do
        let (bs, c) ← quotedBreaks fuel c
        return (b :: bs, c)
      | none => .ok ([], c)

/-- Blanks and breaks inside a quoted scalar. -/
def quotedSpaces (c : Cursor) : Except Error (List Char × Cursor) :=
  let (blanks, c) := c.takeWhile fun ch => ch = ' ' || ch = '\t'
  match c.peek?, c.lineBreak? with
  | none, _ => .error .token
  | some _, some (b, c) => do
    let (bs, c) ← quotedBreaks (c.rest.length + 1) c
    let folded := if b ≠ '\n' then [b] else if bs = [] then [' '] else []
    return (folded ++ bs, c)
  | some _, none => .ok (blanks, c)

/-- The characters up to the next blank, break or closing quote. -/
def quotedText (double : Bool) : (fuel : Nat) → Cursor → Except Error (List Char × Cursor)
  | 0, _ => .error .token
  | fuel + 1, c =>
    let (text, c) := c.takeWhile fun ch =>
      !(ch = '\'' || ch = '"' || ch = '\\' || ch = ' ' || ch = '\t' || isBreak ch)
    let continueWith (more : List Char) (c : Cursor) : Except Error (List Char × Cursor) := do
      let (cs, c) ← quotedText double fuel c
      return (text ++ more ++ cs, c)
    match c.rest with
    | '\'' :: '\'' :: _ =>
      if double then continueWith ['\''] c.next else continueWith ['\''] (c.skip 2)
    | '\'' :: _ => if double then continueWith ['\''] c.next else .ok (text, c)
    | '"' :: _ => if double then .ok (text, c) else continueWith ['"'] c.next
    | '\\' :: rest =>
      if double then
        match rest with
        | [] => .error .token
        | ch :: _ =>
          match escapeChar? ch, escapeWidth? ch with
          | some e, _ => continueWith [e] (c.skip 2)
          | none, some width => do
            let (e, c) ← hexEscape width (c.skip 2)
            continueWith [e] c
          | none, none =>
            match c.next.lineBreak? with
            | some (_, c) => do
              let (bs, c) ← quotedBreaks (c.rest.length + 1) c
              continueWith bs c
            | none => .error .token
      else continueWith ['\\'] c.next
    | _ => .ok (text, c)

def quotedRest (quote : Char) : (fuel : Nat) → Cursor → Except Error (List Char × Cursor)
  | 0, _ => .error .token
  | fuel + 1, c =>
    if c.isAt quote then .ok ([], c.next)
    else do
      let (blanks, c) ← quotedSpaces c
      let (text, c) ← quotedText (quote = '"') (c.rest.length + 1) c
      let (more, c) ← quotedRest quote fuel c
      return (blanks ++ text ++ more, c)

/-- The scalar between the quote ahead and its partner. -/
def quotedScalar (quote : Char) (c : Cursor) : Except Error (String × Cursor) := do
  let c := c.next
  let (text, c) ← quotedText (quote = '"') (c.rest.length + 1) c
  let (more, c) ← quotedRest quote (c.rest.length + 1) c
  return (String.ofList (text ++ more), c)

/-! ### Plain scalars -/

/-- A plain scalar with whether a line break was passed after its last character. -/
structure Plain where
  text : List Char
  crossedLine : Bool

def endsPlain (flow : Bool) (c : Char) (after : Option Char) : Bool :=
  c = ' ' || c = '\t' || isBreak c ||
    (c = ':' && (isBlankOrEnd after || (flow && orEnd (",[]\x7b\x7d".toList.contains ·) after))) ||
    (flow && ",?[]\x7b\x7d".toList.contains c)

def plainLength (flow : Bool) : List Char → Nat
  | [] => 0
  | c :: rest => if endsPlain flow c rest.head? then 0 else plainLength flow rest + 1

/-- The breaks and spaces of the lines ahead, or nothing where a document marker stands. -/
def plainBreaks : (fuel : Nat) → Cursor → Option (List Char) × Cursor
  | 0, c => (none, c)
  | fuel + 1, c =>
    if c.isAt ' ' then plainBreaks fuel c.next
    else
      match c.lineBreak? with
      | none => (some [], c)
      | some (b, c) =>
        if c.isDocumentMarker then (none, c)
        else
          let (bs, c) := plainBreaks fuel c
          (bs.map (b :: ·), c)

/-- Spaces and breaks that may continue a plain scalar, and whether there was a break. -/
def plainSpaces (c : Cursor) : List Char × Bool × Cursor :=
  let (spaces, c) := c.takeWhile (· = ' ')
  match c.lineBreak? with
  | none => (spaces, false, c)
  | some (b, c) =>
    if c.isDocumentMarker then ([], true, c)
    else
      match plainBreaks (c.rest.length + 1) c with
      | (none, c) => ([], true, c)
      | (some bs, c) => ((if b ≠ '\n' then [b] else if bs = [] then [' '] else []) ++ bs, true, c)

def plainRest (flow : Bool) (indent : Int) (spaces : List Char) (crossed : Bool) :
    (fuel : Nat) → Cursor → Plain × Cursor
  | 0, c => ({ text := [], crossedLine := crossed }, c)
  | fuel + 1, c =>
    let n := if c.isAt '#' then 0 else plainLength flow c.rest
    if n = 0 then ({ text := [], crossedLine := crossed }, c)
    else
      let (text, c) := c.take n
      let (after, crossed, c) := plainSpaces c
      if after = [] ∨ c.isAt '#' ∨ (!flow ∧ c.column < indent) then
        ({ text := spaces ++ text, crossedLine := crossed }, c)
      else
        let (p, c) := plainRest flow indent after crossed fuel c
        ({ p with text := spaces ++ text ++ p.text }, c)

/-- A plain scalar; outside flow collections its further lines are indented by `indent` at least. -/
def plainScalar (flow : Bool) (indent : Int) (c : Cursor) : Plain × Cursor :=
  plainRest flow indent [] false (c.rest.length + 1) c

/-! ### Block scalars -/

/-- What becomes of the line breaks at the end of a block scalar. -/
inductive Chomping
  | strip
  | clip
  | keep
  deriving DecidableEq

structure BlockHeader where
  chomping : Chomping := .clip
  increment : Option Nat := none

def chomping? : Char → Option Chomping
  | '+' => some .keep
  | '-' => some .strip
  | _ => none

def increment? (c : Char) : Option Nat := if c.isDigit then some (c.toNat - '0'.toNat) else none

/-- The indicators after `|` or `>`: how to chomp and how far the text is indented, in either order. -/
def blockHeader (c : Cursor) : Except Error (BlockHeader × Cursor) := do
  let (first, c) := match c.peek?.bind chomping? with
    | some ch => (some ch, c.next)
    | none => (none, c)
  let (increment, c) := match c.peek?.bind increment? with
    | some n => (some n, c.next)
    | none => (none, c)
  let (chomping, c) := match first, increment, c.peek?.bind chomping? with
    | none, some _, some ch => (some ch, c.next)
    | _, _, _ => (first, c)
  if increment = some 0 ∨ !isSpaceOrEnd c.peek? then .error .token
  else
    return ({ chomping := chomping.getD .clip, increment }, ← c.ignoredLine)

/-- The breaks of the blank lines ahead and the greatest column that their spaces reach. -/
def blockIndentation (reached : Nat) : (fuel : Nat) → Cursor → List Char × Nat × Cursor
  | 0, c => ([], reached, c)
  | fuel + 1, c =>
    if c.isAt ' ' then blockIndentation (max reached c.next.column) fuel c.next
    else
      match c.lineBreak? with
      | none => ([], reached, c)
      | some (b, c) =>
        let (bs, reached, c) := blockIndentation reached fuel c
        (b :: bs, reached, c)

/-- Skips spaces up to column `indent`. -/
def skipIndent (indent : Nat) (c : Cursor) : Cursor :=
  c.skip (min (indent - c.column) (c.rest.takeWhile (· = ' ')).length)

/-- The breaks of the blank lines ahead, indented by at most `indent`. -/
def blockBreaks (indent : Nat) : (fuel : Nat) → Cursor → List Char × Cursor
  | 0, c => ([], c)
  | fuel + 1, c =>
    let c := skipIndent indent c
    match c.lineBreak? with
    | none => ([], c)
    | some (b, c) =>
      let (bs, c) := blockBreaks indent fuel c
      (b :: bs, c)

def startsBlank (c : Cursor) : Bool := c.isAt ' ' || c.isAt '\t'

/-- The lines of a block scalar from the cursor on, with its last break and the blank lines after it. -/
def blockLines (folded : Bool) (indent : Nat) (breaks : List Char) :
    (fuel : Nat) → Cursor → List Char × Option Char × List Char × Cursor
  | 0, c => ([], none, breaks, c)
  | fuel + 1, c =>
    let indented := !startsBlank c
    let (text, c) := c.takeWhile fun ch => !isBreak ch
    let (lineBreak, c) := match c.lineBreak? with
      | some (b, c) => (some b, c)
      | none => (none, c)
    let (after, c) := blockBreaks indent (c.rest.length + 1) c
    if c.column = indent ∧ c.rest ≠ [] then
      let joint :=
        if folded ∧ lineBreak = some '\n' ∧ indented ∧ !startsBlank c then if after = [] then [' '] else []
        else lineBreak.toList
      let (more, last, ends, c) := blockLines folded indent after fuel c
      (breaks ++ text ++ joint ++ more, last, ends, c)
    else (breaks ++ text, lineBreak, after, c)

/-- The text under `|` or `>`; `parent` is the column of the collection around it. -/
def blockScalar (folded : Bool) (parent : Int) (c : Cursor) : Except Error (String × Cursor) := do
  let (header, c) ← blockHeader c.next
  let least := (max (parent + 1) 1).toNat
  let (breaks, indent, c) := match header.increment with
    | none =>
      let (breaks, reached, c) := blockIndentation 0 (c.rest.length + 1) c
      (breaks, max least reached, c)
    | some n =>
      let indent := least + n - 1
      let (breaks, c) := blockBreaks indent (c.rest.length + 1) c
      (breaks, indent, c)
  let (text, last, ends, c) :=
    if c.column = indent ∧ c.rest ≠ [] then blockLines folded indent breaks (c.rest.length + 1) c
    else ([], none, breaks, c)
  let tail := match header.chomping with
    | .strip => []
    | .clip => last.toList
    | .keep => last.toList ++ ends
  return (String.ofList (text ++ tail), c)

end FormDirectives.Yaml
