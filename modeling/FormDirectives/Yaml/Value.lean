import FormDirectives.Text.Decimal
import FormDirectives.Yaml.Node
import FormDirectives.Yaml.ScalarValue

/-! The data that a document stands for. Entries under a merge key come in front of the entries of their mapping,
    and of two equal keys the later one gives the value. A fault anywhere in the document makes it fail; the
    nodes are examined generation by generation, each once. -/

namespace FormDirectives.Yaml

namespace Node

def tag : Node → Tag
  | scalar tag _ => tag
  | sequence tag _ => tag
  | mapping tag _ => tag
  | ref _ => .null

end Node

namespace Document

/-- The node that is meant, which is no reference. -/
def deref (d : Document) : Node → Node
  | .ref a => (d.anchored.lookup a).getD (.scalar .null "")
  | n => n

def tagOf (d : Document) (n : Node) : Tag := (d.deref n).tag

/-! ### Merging -/

def isCollectionTag : Tag → Bool
  | .seq | .map | .set | .omap | .pairs => true
  | _ => false

/-- The key of an entry; an equals sign stands for itself there. -/
def keyNode (d : Document) (k : Node) : Node :=
  match d.deref k with
  | .scalar .value text => .scalar .str text
  | _ => k

/-- The entries of a mapping that are its own. -/
def ownEntries (d : Document) (entries : List (Node × Node)) : List (Node × Node) :=
  (entries.filter fun e => d.tagOf e.1 ≠ .merge).map fun e => (d.keyNode e.1, e.2)

/-- The entries of the mappings in a list, those of later ones first. -/
def gather (mapping : Node → Except Error (List (Node × Node))) :
    List Node → Except Error (List (Node × Node))
  | [] => .ok []
  | n :: rest => do
    let es ← mapping n
    return (← gather mapping rest) ++ es

/-- The entries under all merge keys, in their order. -/
def underMergeKeys (value : Node → Except Error (List (Node × Node))) :
    List Node → Except Error (List (Node × Node))
  | [] => .ok []
  | n :: rest => do
    let es ← value n
    return es ++ (← underMergeKeys value rest)

/-- The entries of a mapping with those that it merges; an anchor that is being merged already gives only its
    own ones. -/
def allEntries (d : Document) :
    (fuel : Nat) → (active : List String) → List (Node × Node) → Except Error (List (Node × Node))
  | 0, _, entries => .ok (d.ownEntries entries)
  | fuel + 1, active, entries =>
    let mapping (n : Node) : Except Error (List (Node × Node)) :=
      match n, d.deref n with
      | .ref a, .mapping _ es =>
        if a ∈ active then .ok (d.ownEntries es) else d.allEntries fuel (a :: active) es
      | _, .mapping _ es => d.allEntries fuel active es
      | _, _ => .error .value
    let value (n : Node) : Except Error (List (Node × Node)) :=
      match d.deref n with
      | .sequence _ items => gather mapping items
      | _ => mapping n
    return (← underMergeKeys value ((entries.filter fun e => d.tagOf e.1 = .merge).map Prod.snd)) ++
      d.ownEntries entries

def entriesOf (d : Document) (entries : List (Node × Node)) : Except Error (List (Node × Node)) :=
  d.allEntries (maxNesting + d.anchored.length + 1) [] entries

/-! ### Scalars -/

/-- The text of a scalar; a mapping stands for the text under its equals sign. -/
def scalarText (d : Document) : (fuel : Nat) → Node → Except Error String
  | 0, _ => .error .nesting
  | fuel + 1, n =>
    match d.deref n with
    | .scalar _ text => .ok text
    | .mapping _ entries =>
      match entries.find? fun e => d.tagOf e.1 = .value with
      | some e => d.scalarText fuel e.2
      | none => .error .value
    | _ => .error .value

def scalarValue (d : Document) (n : Node) : Except Error Data := do
  match d.tagOf n with
  | .null | .bool | .int | .float | .binary | .timestamp | .str =>
    ScalarValue.ofText (d.tagOf n) (← d.scalarText maxNesting n)
  | _ => .error .value

/-! ### Faults -/

/-- What there is to do for a collection: examine a part of it, which may have to be a possible key, or fail. -/
inductive Task
  | examine (n : Node) (asKey : Bool)
  | fail (e : Error)

def pairTasks (d : Document) (n : Node) : List Task :=
  match d.deref n with
  | .mapping _ [(k, v)] => [.examine k false, .examine v false]
  | _ => [.fail .value]

/-- The tasks for a collection, in order. -/
def tasksOf (d : Document) (n : Node) : List Task :=
  match d.tagOf n, d.deref n with
  | .seq, .sequence _ items => items.map fun i => .examine i false
  | .omap, .sequence _ items | .pairs, .sequence _ items => items.flatMap d.pairTasks
  | .map, .mapping _ entries | .set, .mapping _ entries =>
    match d.entriesOf entries with
    | .ok es => es.flatMap fun e => [.examine e.1 true, .examine e.2 false]
    | .error e => [.fail e]
  | _, _ => [.fail .value]

/-- A generation of collections to come, and the anchors that were met. -/
structure Met where
  next : List Node := []
  anchors : List String := []

def examine (d : Document) (m : Met) (n : Node) (asKey : Bool) : Except Error Met :=
  let collection := isCollectionTag (d.tagOf n)
  let met := match n with
    | .ref a => if a ∈ m.anchors then none else some { m with anchors := a :: m.anchors }
    | _ => some m
  match met with
  | none => if collection ∧ asKey then .error .value else .ok m
  | some m =>
    if collection then if asKey then .error .value else .ok { m with next := n :: m.next }
    else do
      let _ ← d.scalarValue n
      return m

def runTasks (d : Document) (m : Met) : List Task → Except Error Met
  | [] => .ok m
  | .fail e :: _ => .error e
  | .examine n asKey :: rest => do d.runTasks (← d.examine m n asKey) rest

/-- Examines a generation of collections and then those that they lead to. -/
def examineAll (d : Document) : (fuel : Nat) → Met → Except Error Unit
  | 0, _ => .ok ()
  | fuel + 1, m =>
    match m.next with
    | [] => .ok ()
    | _ => do d.examineAll fuel (← d.runTasks { m with next := [] } (m.next.reverse.flatMap d.tasksOf))

/-! ### Data -/

/-- A number as an integer if it is one. -/
def numeric? : Data → Option (Int ⊕ Float)
  | .bool b => some (.inl (if b then 1 else 0))
  | .int n => some (.inl n)
  | .float x => some (match Text.floatInt? x with | some n => .inl n | none => .inr x)
  | _ => none

def sameKey (a b : Data) : Bool :=
  match a, b with
  | .null, .null => true
  | .text s, .text t => s = t
  | .bytes s, .bytes t => s.data = t.data
  | .moment s, .moment t => s = t
  | _, _ =>
    match numeric? a, numeric? b with
    | some (.inl m), some (.inl n) => m = n
    | some (.inr x), some (.inr y) => x == y
    | _, _ => false

/-- A key that is there already keeps its place and takes the later value. -/
def putEntry (es : List (Data × Data)) (k v : Data) : List (Data × Data) :=
  if es.any fun e => sameKey e.1 k then es.map fun e => if sameKey e.1 k then (e.1, v) else e
  else es ++ [(k, v)]

/-- The data of a node without a fault, down to `depth` levels. -/
def dataOf (d : Document) : (depth : Nat) → Node → Data
  | 0, _ => .null
  | depth + 1, n =>
    let entries (es : List (Node × Node)) : List (Data × Data) :=
      match d.entriesOf es with
      | .ok es => es.foldl (fun m e => putEntry m (d.dataOf depth e.1) (d.dataOf depth e.2)) []
      | .error _ => []
    match d.tagOf n, d.deref n with
    | .seq, .sequence _ items => .list (items.map (d.dataOf depth))
    | .omap, .sequence _ items | .pairs, .sequence _ items =>
      .list (items.map fun i => match d.deref i with
        | .mapping _ [(k, v)] => .list [d.dataOf depth k, d.dataOf depth v]
        | _ => .null)
    | .map, .mapping _ es => .map (entries es)
    | .set, .mapping _ es => .set ((entries es).map Prod.fst)
    | _, _ =>
      match d.scalarValue n with
      | .ok v => v
      | .error _ => .null

end Document

/-- How many levels of a document's data are looked at, or more: options are read down to the texts in the list of a
    datasource, which are at the fourth level. -/
def dataDepth : Nat := 6

/-- The data of the only document in a text, null if there is none. Deeper levels than are ever looked at are
    examined but left out, so a document may contain itself. -/
def load (text : String) : Except Error Data := do
  match ← Document.ofTokens? (← tokens text) with
  | none => return .null
  | some d =>
    let m ← d.examine {} d.root false
    d.examineAll (2 * text.length + 4) m
    return d.dataOf dataDepth d.root

end FormDirectives.Yaml
