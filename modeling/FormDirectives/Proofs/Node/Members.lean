import FormDirectives.Node.Read
import FormDirectives.Proofs.Data.Faults

/-! Nodes and the members that they are read from. A node is read from its own members as it is. The names of the
    members that decide a reading are those of its shape: what else an object holds is passed over, and whatever is
    wrong is told below one of these names. -/

namespace FormDirectives

/-! ### Own members -/

namespace Element

def shape : Element → Node.Shape
  | root => .root
  | form .. => .container .form
  | group _ => .container .group
  | input .. => .field .input
  | checkbox .. => .field .checkbox
  | select .. => .field .select
  | submit _ => .field .submit
  | unknown _ => .unknown

/-- The fields under the names that a reading looks for first. -/
def members : Element → List (String × Data)
  | root => []
  | form action method => [("action", .text action), ("method", .text method)]
  | group label => [("label", .text label)]
  | input name label type => [("name", .text name), ("label", .text label), ("type", .text type)]
  | checkbox name label => [("name", .text name), ("label", .text label)]
  | select name label options source => [("name", .text name), ("label", .text label),
      ("options", .list (options.map .text)), ("source", source.elim .null .text)]
  | submit label => [("label", .text label)]
  | unknown directive => [("directive", .text directive)]

end Element

namespace Node

def members (n : Node) (children : List Int) : List (String × Data) :=
  [("kind", .text n.kind), ("props", .map (n.props.entries.map fun e => (.text e.1, .text e.2))), ("line", .int n.line),
    ("children", .list (children.map .int))] ++ n.element.members

theorem nodup_members (n : Node) (children : List Int) : ((n.members children).map (·.1)).Nodup := by
  obtain ⟨element, props, line⟩ := n
  cases element <;> simp [members, Element.members]

section
variable {α : Type} {n : Node} {children : List Int} {key : String} {d : Data} {a : α} {value : Data → Read α}
  {fallback : Read α}

theorem read_own (hmem : (key, d) ∈ n.members children) (hvalue : value d = .ok a) :
    Members.read (.ofList (n.members children)) key value fallback = .ok a := by
  have hget : OrderedMap.get? (.ofList (n.members children)) key = some d :=
    OrderedMap.get?_of_mem ((OrderedMap.entries_ofList (n.nodup_members children)).symm ▸ hmem)
  rw [Members.read, hget]
  exact congrArg (Read.under (.name key)) hvalue

theorem string_own {s fallback : String} (hmem : (key, .text s) ∈ n.members children) :
    Members.string (.ofList (n.members children)) key fallback = .ok s := read_own hmem rfl

theorem checked_own (e : Element) :
    checked (.ofList (n.members children)) n.kind (.ok e) = .ok e := by
  have hkind : Members.checkKind (.ofList (n.members children)) n.kind = .ok () :=
    read_own (d := .text n.kind) List.mem_cons_self (if_pos rfl)
  rw [checked, hkind]
  rfl

end

theorem readElement_members (n : Node) (children : List Int) :
    readElement (.ofList (n.members children)) n.element.shape = .ok n.element := by
  obtain ⟨element, props, line⟩ := n
  cases element with
  | root => exact checked_own .root
  | form action method =>
    rw [Element.shape, readElement, string_own (s := action) (by simp [members, Element.members]),
      string_own (s := method) (by simp [members, Element.members])]
    exact checked_own (.form action method)
  | group label =>
    rw [Element.shape, readElement, string_own (s := label) (by simp [members, Element.members])]
    exact checked_own (.group label)
  | input name label type =>
    rw [Element.shape, readElement, string_own (s := name) (by simp [members, Element.members]),
      string_own (s := label) (by simp [members, Element.members]),
      read_own (d := .text type) (a := type) (by simp [members, Element.members]) rfl]
    exact checked_own (.input name label type)
  | checkbox name label =>
    rw [Element.shape, readElement, string_own (s := name) (by simp [members, Element.members]),
      string_own (s := label) (by simp [members, Element.members])]
    exact checked_own (.checkbox name label)
  | select name label options source =>
    have hsource : optional Data.readString (source.elim .null .text) = .ok source := by
      cases source <;> rfl
    rw [Element.shape, readElement, string_own (s := name) (by simp [members, Element.members]),
      string_own (s := label) (by simp [members, Element.members]),
      read_own (by simp [members, Element.members]) (Data.readTexts_map_text options),
      read_own (by simp [members, Element.members]) hsource]
    exact checked_own (.select name label options source)
  | submit label =>
    rw [Element.shape, readElement, string_own (s := label) (by simp [members, Element.members])]
    exact checked_own (.submit label)
  | unknown directive =>
    rw [Element.shape, readElement, read_own (d := .text directive) (a := directive)
      (by simp [members, Element.members]) rfl]
    rfl

/-- A node is read from its own members as it is, and so are the places of its children if it is a container. -/
theorem ofMembers_members (n : Node) (children : List Int) : ofMembers n.element.shape (.ofList (n.members children)) =
    .ok (n, if n.isContainer then children else []) := by
  have hprops : Members.read (.ofList (n.members children)) "props" (Data.readTable Data.readString) (.ok ∅) =
      .ok n.props := read_own (by simp [members]) (Data.readTable_map_entries .text (fun _ => rfl) n.props)
  have hline : Members.read (.ofList (n.members children)) "line" Data.readInt (.ok 0) = .ok n.line :=
    read_own (d := .int n.line) (by simp [members]) rfl
  have hchildren : readChildren (.ofList (n.members children)) n.element.shape =
      .ok (if n.isContainer then children else []) := by
    have hread : Members.read (.ofList (n.members children)) "children" (Data.readList Data.readInt) (.ok []) =
        .ok children := read_own (by simp [members]) (Data.readList_map .int (fun _ => rfl) children)
    obtain ⟨element, props, line⟩ := n
    cases element with
    | root | form | group => exact hread
    | _ => rfl
  rw [ofMembers, readElement_members, hprops, hline, hchildren]
  rfl

/-! ### The members of a shape -/

/-- The names of the members that a node of the shape is read from. -/
def Shape.keys : Shape → List String
  | .root => ["kind", "props", "line", "children"]
  | .container .form => ["kind", "action", "method", "props", "line", "children"]
  | .container .group => ["kind", "label", "props", "line", "children"]
  | .field .input => ["kind", "name", "label", "type", "input_type", "props", "line"]
  | .field .checkbox => ["kind", "name", "label", "props", "line"]
  | .field .select => ["kind", "name", "label", "options", "source", "props", "line"]
  | .field .submit => ["kind", "label", "props", "line"]
  | .unknown => ["directive", "props", "line"]

theorem common_mem_keys (shape : Shape) : "props" ∈ shape.keys ∧ "line" ∈ shape.keys := by
  rcases shape with - | (_ | _) | (_ | _ | _ | _) | - <;> decide

section
variable {shape : Shape} {ms ms' : Members}

theorem read_congr {α : Type} {key : String} (h : ∀ key ∈ shape.keys, ms.get? key = ms'.get? key)
    (hkey : key ∈ shape.keys) (value : Data → Read α) (fallback : Read α) :
    ms.read key value fallback = ms'.read key value fallback := by
  rw [Members.read, h key hkey, Members.read]

theorem readElement_congr (h : ∀ key ∈ shape.keys, ms.get? key = ms'.get? key) :
    readElement ms shape = readElement ms' shape := by
  rcases shape with - | (_ | _) | (_ | _ | _ | _) | - <;>
    simp (disch := decide) only [readElement, checked, Members.checkKind, Members.string, read_congr h]

theorem readChildren_congr (h : ∀ key ∈ shape.keys, ms.get? key = ms'.get? key) :
    readChildren ms shape = readChildren ms' shape := by
  rcases shape with - | (_ | _) | - | - <;> first | rfl | exact read_congr h (by decide) _ _

/-- The other members are passed over. -/
theorem ofMembers_congr (h : ∀ key ∈ shape.keys, ms.get? key = ms'.get? key) :
    ofMembers shape ms = ofMembers shape ms' := by
  obtain ⟨hprops, hline⟩ := common_mem_keys shape
  rw [ofMembers, readElement_congr h, readChildren_congr h, read_congr h hprops, read_congr h hline, ofMembers]

end

/-! ### What is told of the members -/

/-- A reading that fails tells why, and all that it tells stands below one of the names. -/
structure Names {α : Type} (names : List String) (r : Read α) : Prop where
  blames : r.Blames
  head : ∀ f ∈ r.faults, ∃ name ∈ names, f.place.head? = some (.name name)

namespace Names
variable {α β : Type} {names : List String} {r : Read α} {q : Read β}

theorem ok (a : α) : Names names (.ok a) := ⟨Read.blames_ok a, nofun⟩

theorem map (h : Names names r) (f : α → β) : Names names (f <$> r) :=
  ⟨h.blames.map f, fun g hg => h.head g (Read.faults_map f r ▸ hg)⟩

theorem both (hr : Names names r) (hq : Names names q) : Names names (Read.both r q) := by
  refine ⟨hr.blames.both hq.blames, fun f hf => ?_⟩
  rw [Read.faults_both, List.mem_append] at hf
  exact hf.elim (hr.head f) (hq.head f)

theorem under {name : String} (hname : name ∈ names) (hr : r.Blames) : Names names (Read.under (.name name) r) := by
  refine ⟨hr.under _, fun f hf => ⟨name, hname, ?_⟩⟩
  rw [Read.faults_under] at hf
  exact Read.head_of_mem_map_under f hf

theorem read {key : String} {value : Data → Read α} (hkey : key ∈ names) (hvalue : ∀ d, (value d).Blames)
    (hr : Names names r) (ms : Members) : Names names (ms.read key value r) := by
  unfold Members.read
  split
  · exact under hkey (hvalue _)
  · exact hr

theorem string {key : String} (hkey : key ∈ names) (fallback : String) (ms : Members) :
    Names names (ms.string key fallback) := read hkey Data.blames_readString (ok fallback) ms

theorem checked {e : Read Element} (h : Names names e) (hkind : "kind" ∈ names) (kind : String) (ms : Members) :
    Names names (checked ms kind e) := by
  refine (h.both (read hkind (fun d => ?_) (ok ()) ms)).map _
  cases d with
  | text s =>
    dsimp only
    split
    · exact Read.blames_ok ()
    · exact Read.blames_fail _
  | _ => exact Read.blames_fail _

end Names

theorem blames_optional {α : Type} {value : Data → Read α} (h : ∀ d, (value d).Blames) (d : Data) :
    (optional value d).Blames := by
  cases d with
  | null => exact Read.blames_ok none
  | _ => exact (h _).map some

section
variable (shape : Shape) (ms : Members)

theorem names_readElement : Names shape.keys (readElement ms shape) := by
  match shape with
  | .root => exact (Names.ok Element.root).checked (by decide) "root" ms
  | .container .form =>
    refine Names.checked (.map (.both ?_ ?_) _) (by decide) "form" ms
    · exact .string (by decide) "#" ms
    · exact .string (by decide) "post" ms
  | .container .group => exact (Names.map (.string (by decide) "" ms) Element.group).checked (by decide) "group" ms
  | .field .input =>
    refine Names.checked (.map (.both ?_ (.both ?_ ?_)) _) (by decide) "input" ms
    · exact .string (by decide) "" ms
    · exact .string (by decide) "" ms
    · exact .read (by decide) Data.blames_readString (.string (by decide) "text" ms) ms
  | .field .checkbox =>
    refine Names.checked (.map (.both ?_ ?_) _) (by decide) "checkbox" ms
    · exact .string (by decide) "" ms
    · exact .string (by decide) "" ms
  | .field .select =>
    refine Names.checked (.map (.both ?_ (.both ?_ (.both ?_ ?_))) _) (by decide) "select" ms
    · exact .string (by decide) "" ms
    · exact .string (by decide) "" ms
    · exact .read (by decide) Data.blames_texts (.ok []) ms
    · exact .read (by decide) (blames_optional Data.blames_readString) (.ok none) ms
  | .field .submit => exact (Names.map (.string (by decide) "" ms) Element.submit).checked (by decide) "submit" ms
  | .unknown =>
    have hmissing : Names Shape.unknown.keys (Read.under (.name "directive") (.fail .missing : Read String)) :=
      .under (by decide) (Read.blames_fail .missing)
    exact (Names.read (by decide) Data.blames_readString hmissing ms).map Element.unknown

theorem names_readChildren : Names shape.keys (readChildren ms shape) := by
  match shape with
  | .root | .container .form | .container .group =>
    exact .read (by decide) (Data.blames_readList Data.blames_readInt) (.ok []) ms
  | .field _ | .unknown => exact .ok []

/-- A reading of a node that fails tells why, and all that it tells is about the members of its shape. -/
theorem names_ofMembers : Names shape.keys (ofMembers shape ms) := by
  obtain ⟨hprops, hline⟩ := common_mem_keys shape
  refine (Names.both (.both (names_readElement shape ms) (.both ?_ ?_)) (names_readChildren shape ms)).map _
  · exact .read hprops (Data.blames_readTable Data.blames_readString) (.ok ∅) ms
  · exact .read hline Data.blames_readInt (.ok 0) ms

end
end Node
end FormDirectives
