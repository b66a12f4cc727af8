import FormDirectives.Yaml.Token

/-! The tokens of a document. Indentation opens and closes block collections: a deeper column opens one, a
    column to the left closes those that are further right. A token that may start a key without a question
    mark is remembered, at most one for each level of flow collections, until a colon confirms it or its line
    ends. -/

namespace FormDirectives.Yaml

/-- A place in the tokens where a key may start. -/
structure PossibleKey where
  position : Nat
  required : Bool
  index : Nat
  line : Nat
  column : Nat

structure Scanner where
  cursor : Cursor
  tokens : Array Token := #[]
  flowLevel : Nat := 0
  /-- The column of the innermost block collection, -1 outside of all. -/
  indent : Int := -1
  outerIndents : List Int := []
  keyAllowed : Bool := true
  possibleKeys : List (Nat × PossibleKey) := []

namespace Scanner

def push (s : Scanner) (t : Token) : Scanner := { s with tokens := s.tokens.push t }

/-- Puts a token among those that were read already. -/
def insertToken (s : Scanner) (position : Nat) (t : Token) : Scanner :=
  { s with tokens := s.tokens.extract 0 position ++ #[t] ++ s.tokens.extract position s.tokens.size }

/-! ### Indentation -/

def unwindFrom (column : Int) (s : Scanner) : List Int → Scanner
  | [] => s
  | outer :: rest =>
    if column < s.indent then
      unwindFrom column { s.push .blockEnd with indent := outer, outerIndents := rest } rest
    else s

/-- Closes the block collections to the right of a column. -/
def unwind (s : Scanner) (column : Int) : Scanner :=
  if s.flowLevel ≠ 0 then s else unwindFrom column s s.outerIndents

/-- Opens a block collection at `position` if its column is deeper than all open ones. -/
def openBlock (s : Scanner) (position : Nat) (column : Nat) (t : Token) : Scanner :=
  if s.indent < column then
    { s.insertToken position t with indent := column, outerIndents := s.indent :: s.outerIndents }
  else s

/-! ### Possible keys -/

/-- Drops the possible keys that are too far back; a required one may not be dropped. -/
def dropStaleKeys (s : Scanner) : Except Error Scanner :=
  let stale (k : PossibleKey) : Bool := k.line ≠ s.cursor.line || k.index + 1024 < s.cursor.index
  if s.possibleKeys.any fun k => stale k.2 && k.2.required then .error .token
  else .ok { s with possibleKeys := s.possibleKeys.filter fun k => !stale k.2 }

/-- Drops the possible key of this flow level; a required one may not be dropped. -/
def dropKey (s : Scanner) : Except Error Scanner :=
  match s.possibleKeys.lookup s.flowLevel with
  | none => .ok s
  | some k =>
    if k.required then .error .token
    else .ok { s with possibleKeys := s.possibleKeys.filter fun k => k.1 ≠ s.flowLevel }

/-- Remembers that a key may start here. -/
def saveKey (s : Scanner) : Except Error Scanner :=
  if !s.keyAllowed then .ok s
  else do
    let required := s.flowLevel = 0 && s.indent = s.cursor.column
    let s ← s.dropKey
    let k : PossibleKey := {
      position := s.tokens.size, required, index := s.cursor.index, line := s.cursor.line
      column := s.cursor.column }
    return { s with possibleKeys := (s.flowLevel, k) :: s.possibleKeys }

/-! ### One token -/

/-- Takes a mark of so many characters as a token. -/
def mark (s : Scanner) (width : Nat) (t : Token) (keyAllowed : Bool) : Scanner :=
  { s.push t with cursor := s.cursor.skip width, keyAllowed }

def toNextToken : (fuel : Nat) → Scanner → Scanner
  | 0, s => s
  | fuel + 1, s =>
    let c := s.cursor.skipSpaces
    let c := if c.isAt '#' then c.skipWhile fun ch => !isBreak ch else c
    match c.lineBreak? with
    | some (_, c) => toNextToken fuel { s with cursor := c, keyAllowed := s.keyAllowed || s.flowLevel = 0 }
    | none => { s with cursor := c }

def fetchDirective (s : Scanner) : Except Error Scanner := do
  let s ← (s.unwind (-1)).dropKey
  let (t, c) ← scanDirective s.cursor
  return { s.push t with cursor := c, keyAllowed := false }

def fetchMarker (s : Scanner) (t : Token) : Except Error Scanner := do
  let s ← (s.unwind (-1)).dropKey
  return s.mark 3 t false

def fetchFlowStart (s : Scanner) (t : Token) : Except Error Scanner := do
  let s ← s.saveKey
  return { s.mark 1 t true with flowLevel := s.flowLevel + 1 }

def fetchFlowEnd (s : Scanner) (t : Token) : Except Error Scanner := do
  if s.flowLevel = 0 then .error .grammar
  let s ← s.dropKey
  return { s.mark 1 t false with flowLevel := s.flowLevel - 1 }

def fetchFlowEntry (s : Scanner) : Except Error Scanner := do
  let s ← s.dropKey
  return s.mark 1 .flowEntry true

/-- Opens a block collection for an entry, a key or a value that stands outside flow collections. -/
def enterBlock (s : Scanner) (t : Token) : Except Error Scanner :=
  if s.flowLevel ≠ 0 then .ok s
  else if !s.keyAllowed then .error .token
  else .ok (s.openBlock s.tokens.size s.cursor.column t)

def fetchBlockEntry (s : Scanner) : Except Error Scanner := do
  let s ← (← s.enterBlock .blockSequenceStart).dropKey
  return s.mark 1 .blockEntry true

def fetchKey (s : Scanner) : Except Error Scanner := do
  let s ← (← s.enterBlock .blockMappingStart).dropKey
  return s.mark 1 .key (s.flowLevel = 0)

def fetchValue (s : Scanner) : Except Error Scanner :=
  match s.possibleKeys.lookup s.flowLevel with
  | some k =>
    let s := { s with possibleKeys := s.possibleKeys.filter fun k => k.1 ≠ s.flowLevel }
    let s := s.insertToken k.position .key
    let s := if s.flowLevel = 0 then s.openBlock k.position k.column .blockMappingStart else s
    .ok (s.mark 1 .value false)
  | none => do
    let s ← s.enterBlock .blockMappingStart
    return s.mark 1 .value (s.flowLevel = 0)

def fetchAnchor (s : Scanner) (t : String → Token) : Except Error Scanner := do
  let s ← s.saveKey
  let (name, c) ← scanAnchorName s.cursor
  return { s.push (t name) with cursor := c, keyAllowed := false }

def fetchTag (s : Scanner) : Except Error Scanner := do
  let s ← s.saveKey
  let (t, c) ← scanTag s.cursor
  return { s.push t with cursor := c, keyAllowed := false }

def fetchBlockScalar (s : Scanner) (folded : Bool) : Except Error Scanner := do
  let s ← s.dropKey
  let (text, c) ← blockScalar folded s.indent s.cursor
  return { s.push (.scalar text false) with cursor := c, keyAllowed := true }

def fetchQuoted (s : Scanner) (quote : Char) : Except Error Scanner := do
  let s ← s.saveKey
  let (text, c) ← quotedScalar quote s.cursor
  return { s.push (.scalar text false) with cursor := c, keyAllowed := false }

def fetchPlain (s : Scanner) : Except Error Scanner := do
  let s ← s.saveKey
  let (p, c) := plainScalar (s.flowLevel ≠ 0) (s.indent + 1) s.cursor
  return { s.push (.scalar (String.ofList p.text) true) with cursor := c, keyAllowed := p.crossedLine }

/-- Whether a plain scalar may start with a character, given the one after it. -/
def startsPlain (flow : Bool) (ch : Char) (after : Option Char) : Bool :=
  !(ch = ' ' || ch = '\t' || isBreak ch || "-?:,[]\x7b\x7d#&*!|>'\"%@`".toList.contains ch) ||
    (!isBlankOrEnd after && (ch = '-' || (!flow && (ch = '?' || ch = ':'))))

/-- Reads the token that starts with `ch`. -/
def fetch (s : Scanner) (ch : Char) : Except Error Scanner :=
  let c := s.cursor
  let flow := s.flowLevel ≠ 0
  let alone := isBlankOrEnd (c.peekAt? 1)
  if ch = '%' ∧ c.column = 0 then s.fetchDirective
  else if c.column = 0 ∧ c.isMarker '-' then s.fetchMarker .documentStart
  else if c.column = 0 ∧ c.isMarker '.' then s.fetchMarker .documentEnd
  else match ch with
  | '[' => s.fetchFlowStart .flowSequenceStart
  | '\x7b' => s.fetchFlowStart .flowMappingStart
  | ']' => s.fetchFlowEnd .flowSequenceEnd
  | '\x7d' => s.fetchFlowEnd .flowMappingEnd
  | ',' => s.fetchFlowEntry
  | '*' => s.fetchAnchor .alias
  | '&' => s.fetchAnchor .anchor
  | '!' => s.fetchTag
  | '\'' => s.fetchQuoted '\''
  | '"' => s.fetchQuoted '"'
  | _ =>
    if ch = '-' ∧ alone then s.fetchBlockEntry
    else if ch = '?' ∧ (flow ∨ alone) then s.fetchKey
    else if ch = ':' ∧ (flow ∨ alone) then s.fetchValue
    else if ch = '|' ∧ !flow then s.fetchBlockScalar false
    else if ch = '>' ∧ !flow then s.fetchBlockScalar true
    else if startsPlain flow ch (c.peekAt? 1) then s.fetchPlain
    else .error .token

/-! ### All tokens -/

/-- Closes what is open at the end of the document. -/
def finish (s : Scanner) : Except Error (List Token) := do
  let s ← (s.unwind (-1)).dropKey
  return s.tokens.toList

/-- Reads tokens up to the end; each takes at least one character. -/
def run (s : Scanner) : Except Error (List Token) :=
  match (toNextToken (s.cursor.rest.length + 1) s).dropStaleKeys with
  | .error e => .error e
  | .ok next =>
    let next := next.unwind next.cursor.column
    match next.cursor.peek? with
    | none => next.finish
    | some ch =>
      match next.fetch ch with
      | .error e => .error e
      | .ok after =>
        if _h : after.cursor.rest.length < s.cursor.rest.length then run after else .error .token
termination_by s.cursor.rest.length

end Scanner

/-- The tokens of a text; a byte order mark at its start is passed over. -/
def tokens (text : String) : Except Error (List Token) :=
  let cs := text.toList
  if cs.all isAllowed then
    let c : Cursor := { rest := cs }
    ({ cursor := if c.isAt (Char.ofNat 0xfeff) then c.next else c } : Scanner).run
  else .error .unprintable

end FormDirectives.Yaml
