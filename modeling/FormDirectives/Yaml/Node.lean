import FormDirectives.Yaml.Tag
import FormDirectives.Yaml.TokenStream

/-! The nodes of a document. An anchored node stands in a table under its anchor, and wherever it is meant there
    is a reference to it, also at its own place; so a node can contain itself. -/

namespace FormDirectives.Yaml

inductive Node
  | scalar (tag : Tag) (text : String)
  | sequence (tag : Tag) (items : List Node)
  | mapping (tag : Tag) (entries : List (Node × Node))
  | ref (anchor : String)
  deriving Inhabited

structure Document where
  root : Node
  anchored : List (String × Node)

/-! ### Reading nodes from tokens -/

namespace Document

/-- The greatest number of collections around a node. At most a thousand calls can be open; each collection takes two of
    them, one for itself and one for the node that it is, and the reading of the tokens and its callers take the rest. -/
def maxNesting : Nat := 475

structure Reader where
  tokens : List Token
  handles : List (String × String)
  declared : List String := []
  anchored : List (String × Node) := []

namespace Reader

def defaultHandles : List (String × String) := [("!", "!"), ("!!", "tag:yaml.org,2002:")]

def peek? (r : Reader) : Option Token := r.tokens.head?

def drop (r : Reader) : Reader := { r with tokens := r.tokens.drop 1 }

def isAt (r : Reader) (ts : List Token) : Bool := (r.peek?.map ts.contains).getD false

/-- Past a token that has to stand here. -/
def expect (r : Reader) (t : Token) : Except Error Reader :=
  if r.isAt [t] then .ok r.drop else .error .grammar

def emptyScalar : Node := .scalar (.ofPlain "") ""

/-! #### Anchors and tags -/

structure Properties where
  anchor : Option String := none
  /-- The full name of the tag, as far as one is given. -/
  tag : Option String := none

def tagName (r : Reader) : Option String → String → Except Error String
  | none, suffix => .ok suffix
  | some handle, suffix =>
    match r.handles.lookup handle with
    | some full => .ok (full ++ suffix)
    | none => .error .grammar

/-- An anchor and a tag, in either order. -/
def properties (r : Reader) : Except Error (Properties × Reader) :=
  match r.tokens with
  | .anchor a :: .tag h s :: rest => do
    return ({ anchor := a, tag := ← r.tagName h s }, { r with tokens := rest })
  | .tag h s :: .anchor a :: rest => do
    return ({ anchor := a, tag := ← r.tagName h s }, { r with tokens := rest })
  | .anchor a :: rest => .ok ({ anchor := a }, { r with tokens := rest })
  | .tag h s :: rest => do return ({ tag := ← r.tagName h s }, { r with tokens := rest })
  | _ => .ok ({}, r)

/-- The tag of a collection. -/
def Properties.collectionTag (p : Properties) (fallback : Tag) : Tag :=
  match p.tag with
  | none | some "!" => fallback
  | some name => .ofName name

/-- The tag of a scalar: plain text without a tag says it itself. -/
def Properties.scalarTag (p : Properties) (text : String) (plain : Bool) : Tag :=
  match p.tag with
  | none => if plain then .ofPlain text else .str
  | some "!" => .ofPlain text
  | some name => .ofName name

def declare (r : Reader) : Option String → Except Error Reader
  | none => .ok r
  | some a => if a ∈ r.declared then .error .reference else .ok { r with declared := a :: r.declared }

/-- Puts a finished node into the table if it has an anchor. -/
def place (r : Reader) (n : Node) : Option String → Node × Reader
  | none => (n, r)
  | some a => (.ref a, { r with anchored := (a, n) :: r.anchored })

/-! #### Nodes -/

/-- Where a node may stand: in a flow collection, in a block, or as the value of a block mapping, whose
    sequences need no indentation. -/
inductive Position
  | flow
  | block
  | blockValue
  deriving DecidableEq

/-- An empty scalar, where an anchor or a tag stands for itself. -/
def emptyNode (p : Properties) (r : Reader) : Except Error (Node × Reader) :=
  if p.anchor = none ∧ p.tag = none then .error .grammar
  else do
    let r ← r.declare p.anchor
    return (.scalar (p.scalarTag "" true) "", r)

mutual

def node : (fuel depth : Nat) → Position → Reader → Except Error (Node × Reader)
  | 0, _, _, _ => .error .grammar
  | fuel + 1, depth, pos, r =>
    match depth with
    | 0 => .error .nesting
    | depth + 1 =>
      match r.tokens with
      | .alias a :: rest => if a ∈ r.declared then .ok (.ref a, { r with tokens := rest }) else .error .reference
      | _ => do
        let (p, r) ← r.properties
        let content ← match r.tokens, pos with
          | .blockEntry :: _, .blockValue => do
            let r ← r.declare p.anchor
            let (items, r) ← indentlessItems fuel depth r
            pure (Node.sequence (p.collectionTag .seq) items, r)
          | .scalar text plain :: rest, _ => do
            let r ← r.declare p.anchor
            pure (Node.scalar (p.scalarTag text plain) text, { r with tokens := rest })
          | .flowSequenceStart :: rest, _ => do
            let r ← r.declare p.anchor
            let (items, r) ← flowItems fuel depth true { r with tokens := rest }
            pure (Node.sequence (p.collectionTag .seq) items, r)
          | .flowMappingStart :: rest, _ => do
            let r ← r.declare p.anchor
            let (entries, r) ← flowEntries fuel depth true { r with tokens := rest }
            pure (Node.mapping (p.collectionTag .map) entries, r)
          | .blockSequenceStart :: rest, _ =>
            if pos = .flow then emptyNode p r
            else do
              let r ← r.declare p.anchor
              let (items, r) ← blockItems fuel depth { r with tokens := rest }
              pure (Node.sequence (p.collectionTag .seq) items, r)
          | .blockMappingStart :: rest, _ =>
            if pos = .flow then emptyNode p r
            else do
              let r ← r.declare p.anchor
              let (entries, r) ← blockEntries fuel depth { r with tokens := rest }
              pure (Node.mapping (p.collectionTag .map) entries, r)
          | _, _ => emptyNode p r
        return content.2.place content.1 p.anchor
termination_by structural fuel => fuel

/-- A node, or an empty scalar in front of one of the tokens `ends`. -/
def nodeUnless (ends : List Token) :
    (fuel depth : Nat) → Position → Reader → Except Error (Node × Reader)
  | 0, _, _, _ => .error .grammar
  | fuel + 1, depth, pos, r => if r.isAt ends then .ok (emptyScalar, r) else node fuel depth pos r
termination_by structural fuel => fuel

def blockItems : (fuel depth : Nat) → Reader → Except Error (List Node × Reader)
  | 0, _, _ => .error .grammar
  | fuel + 1, depth, r =>
    match r.peek? with
    | some .blockEntry => do
      let (n, r) ← nodeUnless [.blockEntry, .blockEnd] fuel depth .block r.drop
      let (ns, r) ← blockItems fuel depth r
      return (n :: ns, r)
    | _ => do return ([], ← r.expect .blockEnd)
termination_by structural fuel => fuel

def indentlessItems : (fuel depth : Nat) → Reader → Except Error (List Node × Reader)
  | 0, _, _ => .error .grammar
  | fuel + 1, depth, r =>
    match r.peek? with
    | some .blockEntry => do
      let (n, r) ← nodeUnless [.blockEntry, .key, .value, .blockEnd] fuel depth .block r.drop
      let (ns, r) ← indentlessItems fuel depth r
      return (n :: ns, r)
    | _ => .ok ([], r)
termination_by structural fuel => fuel

def blockEntries : (fuel depth : Nat) → Reader → Except Error (List (Node × Node) × Reader)
  | 0, _, _ => .error .grammar
  | fuel + 1, depth, r =>
    let ends : List Token := [.key, .value, .blockEnd]
    match r.peek? with
    | some .key => do
      let (k, r) ← nodeUnless ends fuel depth .blockValue r.drop
      let (v, r) ←
        if r.isAt [.value] then nodeUnless ends fuel depth .blockValue r.drop else pure (emptyScalar, r)
      let (es, r) ← blockEntries fuel depth r
      return ((k, v) :: es, r)
    | _ => do return ([], ← r.expect .blockEnd)
termination_by structural fuel => fuel

/-- The items up to the closing bracket; a key or a pair among them is a mapping of one entry. -/
def flowItems : (fuel depth : Nat) → (first : Bool) → Reader → Except Error (List Node × Reader)
  | 0, _, _, _ => .error .grammar
  | fuel + 1, depth, first, r =>
    if r.isAt [.flowSequenceEnd] then .ok ([], r.drop)
    else do
      let r ← if first then pure r else r.expect .flowEntry
      match r.peek? with
      | some .flowSequenceEnd => return ([], r.drop)
      | some .key =>
        match depth with
        | 0 => .error .nesting
        | depth' + 1 =>
          let (k, r) ← nodeUnless [.value, .flowEntry, .flowSequenceEnd] fuel depth' .flow r.drop
          let (v, r) ←
            if r.isAt [.value] then nodeUnless [.flowEntry, .flowSequenceEnd] fuel depth' .flow r.drop
            else pure (emptyScalar, r)
          let (ns, r) ← flowItems fuel depth false r
          return (.mapping .map [(k, v)] :: ns, r)
      | _ =>
        let (n, r) ← node fuel depth .flow r
        let (ns, r) ← flowItems fuel depth false r
        return (n :: ns, r)
termination_by structural fuel => fuel

def flowEntries : (fuel depth : Nat) → (first : Bool) → Reader → Except Error (List (Node × Node) × Reader)
  | 0, _, _, _ => .error .grammar
  | fuel + 1, depth, first, r =>
    if r.isAt [.flowMappingEnd] then .ok ([], r.drop)
    else do
      let r ← if first then pure r else r.expect .flowEntry
      match r.peek? with
      | some .flowMappingEnd => return ([], r.drop)
      | some .key =>
        let (k, r) ← nodeUnless [.value, .flowEntry, .flowMappingEnd] fuel depth .flow r.drop
        let (v, r) ←
          if r.isAt [.value] then nodeUnless [.flowEntry, .flowMappingEnd] fuel depth .flow r.drop
          else pure (emptyScalar, r)
        let (es, r) ← flowEntries fuel depth false r
        return ((k, v) :: es, r)
      | _ =>
        let (k, r) ← node fuel depth .flow r
        let (es, r) ← flowEntries fuel depth false r
        return ((k, emptyScalar) :: es, r)
termination_by structural fuel => fuel

end

/-! #### Directives and documents -/

/-- The handles that directives set, with the default ones that none of them sets. -/
def directives (version : Bool) (handles : List (String × String)) :
    List Token → Except Error (List (String × String) × List Token)
  | .version major :: rest =>
    if version ∨ major ≠ 1 then .error .grammar else directives true handles rest
  | .tagShort handle full :: rest =>
    if (handles.lookup handle).isSome then .error .grammar
    else directives version (handles ++ [(handle, full)]) rest
  | .otherDirective :: rest => directives version handles rest
  | rest => .ok (handles ++ defaultHandles, rest)

def isDirective : Token → Bool
  | .version _ | .tagShort .. | .otherDirective => true
  | _ => false

/-- The start of a document: directives and its marker, or nothing. -/
def start (ts : List Token) : Except Error (Reader × Bool) :=
  match ts with
  | [] => .ok ({ tokens := [], handles := defaultHandles }, false)
  | t :: _ =>
    if isDirective t ∨ t = .documentStart then do
      let (handles, rest) ← directives false [] ts
      match rest with
      | .documentStart :: rest => return ({ tokens := rest, handles }, true)
      | _ => .error .grammar
    else .ok ({ tokens := ts, handles := defaultHandles }, false)

end Reader

/-- The only document of the tokens, if there is one at all; nothing but end markers may stand behind it. -/
def ofTokens? (ts : List Token) : Except Error (Option Document) := do
  if ts = [] then return none
  let (r, marked) ← Reader.start ts
  let empty := marked && (match r.tokens with
    | [] => true
    | t :: _ => Reader.isDirective t || t = .documentStart || t = .documentEnd)
  let (root, r) ←
    if empty then pure (Reader.emptyScalar, r) else Reader.node (4 * ts.length + 8) maxNesting .block r
  if r.tokens.all (· = .documentEnd) then return some { root, anchored := r.anchored } else .error .grammar

end Document
end FormDirectives.Yaml
