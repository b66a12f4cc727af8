import FormDirectives.Text.Digit
import FormDirectives.Text.Utf8
import FormDirectives.Yaml.Scalar

/-! Tokens of a document, and how those that are neither scalars nor single marks are read: directives, anchors,
    aliases and tags. -/

namespace FormDirectives.Yaml

inductive Token
  | version (major : Nat)
  | tagShort (handle full : String)
  /-- A directive that is neither a version nor a tag abbreviation. -/
  | otherDirective
  | documentStart
  | documentEnd
  | blockSequenceStart
  | blockMappingStart
  | blockEnd
  | flowSequenceStart
  | flowSequenceEnd
  | flowMappingStart
  | flowMappingEnd
  | blockEntry
  | flowEntry
  | key
  | value
  | alias (name : String)
  | anchor (name : String)
  | tag (handle : Option String) (suffix : String)
  | scalar (text : String) (plain : Bool)
  deriving DecidableEq, Repr

/-! ### Names -/

/-- A name, which may not be empty. -/
def scanIdent (c : Cursor) : Except Error (String × Cursor) :=
  let (cs, c) := c.takeWhile isIdent
  if cs = [] then .error .token else .ok (String.ofList cs, c)

/-- The name of an anchor or an alias, after its indicator. -/
def scanAnchorName (c : Cursor) : Except Error (String × Cursor) := do
  let (name, c) ← scanIdent c.next
  if orEnd (fun ch => ch = ' ' || ch = '\t' || isBreak ch || "?:,]\x7d%@`".toList.contains ch) c.peek? then
    return (name, c)
  else .error .token

/-! ### Tags -/

/-- The bytes of escapes such as `%20`. -/
def uriBytes : (fuel : Nat) → Cursor → Except Error (List UInt8 × Cursor)
  | 0, _ => .error .token
  | fuel + 1, c =>
    match c.rest with
    | '%' :: rest =>
      match rest with
      | a :: b :: _ =>
        if isHexDigit a ∧ isHexDigit b then do
          let (bs, c) ← uriBytes fuel (c.skip 3)
          return (UInt8.ofNat (hexValue a * 16 + hexValue b) :: bs, c)
        else .error .token
      | _ => .error .token
    | _ => .ok ([], c)

def uriChars : (fuel : Nat) → Cursor → Except Error (List Char × Cursor)
  | 0, _ => .error .token
  | fuel + 1, c => do
    let (plain, c) := c.takeWhile fun ch => isUri ch && ch ≠ '%'
    if c.isAt '%' then
      let (bytes, c) ← uriBytes (c.rest.length + 1) c
      match Text.Utf8.decode ⟨bytes.toArray⟩ with
      | .ok s =>
        let (more, c) ← uriChars fuel c
        return (plain ++ s.toList ++ more, c)
      | .error _ => .error .token
    else return (plain, c)

/-- The characters of a tag with their escapes replaced; there has to be one. -/
def scanUri (c : Cursor) : Except Error (String × Cursor) :=
  if (c.peek?.map isUri).getD false then do
    let (cs, c) ← uriChars (c.rest.length + 1) c
    return (String.ofList cs, c)
  else .error .token

/-- A handle: one exclamation mark, or a name between two. -/
def scanHandle (c : Cursor) : Except Error (String × Cursor) :=
  if !c.isAt '!' then .error .token
  else
    let c := c.next
    if c.isAt ' ' then .ok ("!", c)
    else
      let (cs, c) := c.takeWhile isIdent
      if c.isAt '!' then .ok (String.ofList ('!' :: cs ++ ['!']), c.next) else .error .token

/-- Whether a second exclamation mark comes before the next space. -/
def usesHandle (c : Cursor) : Bool := (c.rest.takeWhile fun ch => !(ch = ' ' || isBreak ch)).contains '!'

def scanTag (c : Cursor) : Except Error (Token × Cursor) := do
  let (token, c) ←
    if c.next.isAt '<' then do
      let (suffix, c) ← scanUri (c.skip 2)
      if c.isAt '>' then pure (Token.tag none suffix, c.next) else .error .token
    else if isBlankOrEnd c.next.peek? then pure (Token.tag none "!", c.next)
    else if usesHandle c.next then do
      let (handle, c) ← scanHandle c
      let (suffix, c) ← scanUri c
      pure (Token.tag (some handle) suffix, c)
    else do
      let (suffix, c) ← scanUri c.next
      pure (Token.tag (some "!") suffix, c)
  if isSpaceOrEnd c.peek? then return (token, c) else .error .token

/-! ### Directives -/

def scanNumber (c : Cursor) : Except Error (Nat × Cursor) :=
  let (ds, c) := c.takeWhile Char.isDigit
  if ds = [] then .error .token
  else if Text.maxDigits < ds.length then .error (.notInt 10 (String.ofList ds))
  else .ok (ds.foldl (fun n d => n * 10 + (d.toNat - '0'.toNat)) 0, c)

def scanVersion (c : Cursor) : Except Error (Token × Cursor) := do
  let (major, c) ← scanNumber c.skipSpaces
  if !c.isAt '.' then .error .token
  let (_, c) ← scanNumber c.next
  if isSpaceOrEnd c.peek? then return (.version major, c) else .error .token

def scanTagShort (c : Cursor) : Except Error (Token × Cursor) := do
  let (handle, c) ← scanHandle c.skipSpaces
  if !c.isAt ' ' then .error .token
  let (full, c) ← scanUri c.skipSpaces
  if isSpaceOrEnd c.peek? then return (.tagShort handle full, c) else .error .token

/-- A directive, which takes its whole line. -/
def scanDirective (c : Cursor) : Except Error (Token × Cursor) := do
  let (name, c) ← scanIdent c.next
  if !isSpaceOrEnd c.peek? then .error .token
  let (token, c) ←
    if name = "YAML" then scanVersion c
    else if name = "TAG" then scanTagShort c
    else pure (Token.otherDirective, c.skipWhile fun ch => !isBreak ch)
  return (token, ← c.ignoredLine)

end FormDirectives.Yaml
