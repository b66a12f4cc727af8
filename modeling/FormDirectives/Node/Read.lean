import FormDirectives.Data.Read
import FormDirectives.Node

/-! Reading a node from the members of an object, its fields given one by one and not through its properties.
    Members that a node does not have are passed over. -/

namespace FormDirectives.Node

/-- The kinds of nodes that can be read. -/
inductive Shape
  | root
  | container (c : Container)
  | field (f : Field)
  | unknown
  deriving DecidableEq, Repr

abbrev Members := OrderedMap String Data

def Members.read {α : Type} (ms : Members) (key : String) (value : Data → Read α) (fallback : Read α) : Read α :=
  match ms.get? key with
  | some d => (value d).under (.name key)
  | none => fallback

def Members.string (ms : Members) (key fallback : String) : Read String :=
  ms.read key Data.readString (.ok fallback)

/-- The value of a member that may be null. -/
def optional {α : Type} (value : Data → Read α) : Data → Read (Option α)
  | .null => .ok none
  | d => some <$> value d

/-- A member that can only name the kind of its node. -/
def Members.checkKind (ms : Members) (kind : String) : Read Unit :=
  ms.read "kind" (fun d =>
    match d with
    | .text s => if s = kind then .ok () else .fail (.literal kind)
    | _ => .fail (.literal kind)) (.ok ())

def checked (ms : Members) (kind : String) (e : Read Element) : Read Element :=
  (fun r => r.1) <$> Read.both e (ms.checkKind kind)

def readElement (ms : Members) : Shape → Read Element
  | .root => checked ms "root" (.ok .root)
  | .container .form => checked ms "form" <|
    (fun r => .form r.1 r.2) <$> Read.both (ms.string "action" "#") (ms.string "method" "post")
  | .container .group => checked ms "group" (.group <$> ms.string "label" "")
  | .field .input => checked ms "input" <|
    (fun r => .input r.1 r.2.1 r.2.2) <$> Read.both (ms.string "name" "") (Read.both (ms.string "label" "")
      (ms.read "type" Data.readString (ms.string "input_type" "text")))
  | .field .checkbox => checked ms "checkbox" <|
    (fun r => .checkbox r.1 r.2) <$> Read.both (ms.string "name" "") (ms.string "label" "")
  | .field .select => checked ms "select" <|
    (fun r => .select r.1 r.2.1 r.2.2.1 r.2.2.2) <$> Read.both (ms.string "name" "")
      (Read.both (ms.string "label" "") (Read.both (ms.read "options" (Data.readList Data.readString) (.ok []))
        (ms.read "source" (optional Data.readString) (.ok none))))
  | .field .submit => checked ms "submit" (.submit <$> ms.string "label" "")
  | .unknown =>
    .unknown <$> ms.read "directive" Data.readString (Read.under (.name "directive") (.fail .missing))

def readChildren (ms : Members) : Shape → Read (List Int)
  | .root | .container _ => ms.read "children" (Data.readList Data.readInt) (.ok [])
  | _ => .ok []

/-- The node that the members describe, and the places that it gives its children. -/
def ofMembers (shape : Shape) (ms : Members) : Read (Node × List Int) :=
  (fun r => ({ element := r.1.1, props := r.1.2.1, line := r.1.2.2 }, r.2)) <$>
    Read.both (Read.both (readElement ms shape)
      (Read.both (ms.read "props" (Data.readTable Data.readString) (.ok ∅)) (ms.read "line" Data.readInt (.ok 0))))
      (readChildren ms shape)

end FormDirectives.Node
