import FormDirectives.Token

/-! What stands in a form: elements with the fields that their markup shows, and nodes, which are elements with
    the properties and the line of the directive they come from. -/

namespace FormDirectives

inductive Element
  | root
  | form (action method : String)
  | group (label : String)
  | input (name label type : String)
  | checkbox (name label : String)
  | select (name label : String) (options : List String) (source : Option String)
  | submit (label : String)
  /-- A directive without a rendering rule. -/
  | unknown (directive : String)
  deriving DecidableEq, Repr, Inhabited

namespace Element

def kind : Element → String
  | root => "root"
  | form .. => "form"
  | group _ => "group"
  | input .. => "input"
  | checkbox .. => "checkbox"
  | select .. => "select"
  | submit _ => "submit"
  | unknown directive => directive

/-- The elements that can have children. -/
def isContainer : Element → Bool
  | root | form .. | group _ => true
  | _ => false

/-- The datasource that a select fetches its options from, if it has one. -/
def source? : Element → Option String
  | select _ _ _ source => source.filter (· ≠ "")
  | _ => none

/-- Whether a select is one that fetches its options. -/
def isDynamic : Element → Bool
  | select _ _ _ source => source.isSome
  | _ => false

theorem source?_of_ne {source : String} (h : source ≠ "") (name label : String) (options : List String) :
    (select name label options (some source)).source? = some source := by
  simp [source?, Option.filter, h]

end Element

/-! ### Directives -/

/-- The directives that open containers. -/
inductive Container
  | form
  | group
  deriving DecidableEq, Repr

/-- The directives that stand for a field of the form. -/
inductive Field
  | input
  | checkbox
  | select
  | submit
  deriving DecidableEq, Repr

inductive Role
  | opener (c : Container)
  | closer (c : Container)
  | field (f : Field)
  | unknown
  deriving DecidableEq, Repr

namespace Container

def kind : Container → String
  | form => "form"
  | group => "group"

/-- A form without an action or method, or with an empty one, posts to `#`. -/
def element (c : Container) (p : Props) : Element :=
  match c with
  | form => .form ((p.nonempty? "action").getD "#") ((p.nonempty? "method").getD "post")
  | group => .group (p.text "label")

end Container

/-- The options of a select, written with commas between them. -/
def splitOptions (text : String) : List String := (text.toList.splitOn ',').map String.ofList

/-- A select with a source has no options of its own. -/
def Field.element (f : Field) (p : Props) : Element :=
  match f with
  | input => .input (p.text "name") (p.text "label") ((p.nonempty? "type").getD "text")
  | checkbox => .checkbox (p.text "name") (p.text "label")
  | select =>
    match p.nonempty? "source" with
    | some source => .select (p.text "name") (p.text "label") [] (some source)
    | none => .select (p.text "name") (p.text "label") (splitOptions (p.text "options")) none
  | submit => .submit (p.text "label")

def Role.ofDirective : String → Role
  | "form" => .opener .form
  | "group" => .opener .group
  | "endform" => .closer .form
  | "endgroup" => .closer .group
  | "input" => .field .input
  | "checkbox" => .field .checkbox
  | "select" => .field .select
  | "submit" => .field .submit
  | _ => .unknown

/-! ### Nodes -/

structure Node where
  element : Element
  props : Props := ∅
  line : Int := 0
  deriving DecidableEq, Repr, Inhabited

namespace Node

def kind (n : Node) : String := n.element.kind

def isContainer (n : Node) : Bool := n.element.isContainer

end Node

namespace Token

def role (t : Token) : Role := Role.ofDirective t.directive

/-- The element that a directive stands for; a closer stands for none. -/
def element (t : Token) : Element :=
  match t.role with
  | .opener c => c.element t.props
  | .field f => f.element t.props
  | .closer _ | .unknown => .unknown t.directive

def node (t : Token) : Node := { element := t.element, props := t.props, line := t.line }

theorem element_of_opener {t : Token} {c : Container} (h : t.role = .opener c) : t.element = c.element t.props := by
  simp [element, h]

theorem element_ne_root (t : Token) : t.element ≠ .root := by
  unfold element
  split
  · next c _ => cases c <;> nofun
  · next f _ =>
    cases f with
    | select =>
      simp only [Field.element]
      split <;> nofun
    | _ => nofun
  · nofun
  · nofun

theorem kind_node_of_opener {t : Token} {c : Container} (h : t.role = .opener c) : t.node.kind = c.kind := by
  unfold Node.kind node
  rw [element_of_opener h]
  cases c <;> rfl

theorem isContainer_node {t : Token} : t.node.isContainer = true ↔ ∃ c, t.role = .opener c := by
  unfold Node.isContainer node element
  split
  · next c hrole =>
    rw [hrole]
    exact ⟨fun _ => ⟨c, rfl⟩, fun _ => by cases c <;> rfl⟩
  · next f hrole =>
    rw [hrole]
    refine ⟨fun h => ?_, fun ⟨_, h⟩ => by cases h⟩
    cases f <;> simp only [Field.element] at h
    · cases h
    · cases h
    · split at h <;> cases h
    · cases h
  · next c hrole =>
    rw [hrole]
    exact ⟨nofun, fun ⟨_, h⟩ => nomatch h⟩
  · next hrole =>
    rw [hrole]
    exact ⟨nofun, fun ⟨_, h⟩ => nomatch h⟩

end Token

end FormDirectives
