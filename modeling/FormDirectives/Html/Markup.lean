import FormDirectives.Html.Escape
import FormDirectives.Node

/-! The markup of an element: fixed text, values of its fields, and the place where the markup of its children
    stands. Values are the only pieces that escaping changes. -/

namespace FormDirectives.Html

inductive Piece
  | fixed (text : String)
  | value (text : String)
  | content
  deriving DecidableEq, Repr

/-- The id of the element that the answer to a form replaces. -/
def resultId : String := "form-result"

def fieldClass : String :=
  "bg-gray-50 border border-gray-300 text-gray-900 text-sm rounded-lg block w-full p-2.5"

def buttonClass : String :=
  "text-white bg-blue-700 hover:bg-blue-800 font-medium rounded-lg text-sm px-5 py-2.5"

def optionPieces (option : String) : List Piece :=
  [.fixed "<option value=\"", .value option, .fixed "\">", .value option, .fixed "</option>"]

def labelPieces (label : String) : List Piece :=
  [.fixed "  <label class=\"block mb-2 text-sm font-medium text-gray-900\">", .value label, .fixed "</label>\n"]

def selectPieces (name label : String) (head options : List Piece) : List Piece :=
  head ++ labelPieces label ++
    [.fixed "  <select name=\"", .value name, .fixed s!"\"\n          class=\"{fieldClass}\">\n"] ++
    options ++ [.fixed "  </select>\n</div>"]

/-- The markup of an element. A select with a source fetches its options when it is loaded, any other holds
    them. -/
def pieces : Element → List Piece
  | .root => [.content]
  | .form action method =>
    [.fixed "<form hx-post=\"", .value action, .fixed s!"\"\n      hx-target=\"#{resultId}\"\n      method=\"",
      .value method, .fixed "\"\n      class=\"space-y-6 p-4 border rounded-lg bg-white shadow\">\n", .content,
      .fixed s!"\n</form>\n<div id=\"{resultId}\" class=\"mt-4\"></div>"]
  | .group label =>
    [.fixed "<div class=\"p-4 border rounded-lg bg-gray-50\">\n  <p class=\"font-semibold mb-3\">", .value label,
      .fixed "</p>\n", .content, .fixed "\n</div>"]
  | .input name label type =>
    [.fixed "<div>\n"] ++ labelPieces label ++
      [.fixed "  <input name=\"", .value name, .fixed "\"\n         type=\"", .value type,
        .fixed s!"\"\n         class=\"{fieldClass}\" />\n</div>"]
  | .checkbox name label =>
    [.fixed "<div class=\"flex items-center\">\n  <input id=\"", .value name, .fixed "\" name=\"", .value name,
      .fixed "\" type=\"checkbox\"\n",
      .fixed "         class=\"w-4 h-4 text-blue-600 bg-gray-100 border-gray-300 rounded\">\n",
      .fixed "  <label for=\"", .value name, .fixed "\" class=\"ms-2 text-sm font-medium text-gray-900\">",
      .value label, .fixed "</label>\n</div>"]
  | e@(.select name label options _) =>
    match e.source? with
    | some source =>
      selectPieces name label
        [.fixed "<div hx-get=\"", .value source,
          .fixed "\"\n     hx-trigger=\"load\"\n     hx-target=\"select[name='", .value name, .fixed "']\">\n"] []
    | none =>
      selectPieces name label [.fixed "<div>\n"] (options.flatMap optionPieces ++ [.fixed "\n"])
  | .submit label =>
    [.fixed "<button type=\"submit\"\n        class=\"", .fixed buttonClass, .fixed "\">\n  ", .value label,
      .fixed "\n</button>"]
  | .unknown directive => [.fixed "<!-- unknown node: ", .value directive, .fixed " -->"]

theorem pieces_of_source {source : String} (h : source ≠ "") (name label : String) (options : List String) :
    pieces (.select name label options (some source)) = selectPieces name label
      [.fixed "<div hx-get=\"", .value source,
        .fixed "\"\n     hx-trigger=\"load\"\n     hx-target=\"select[name='", .value name, .fixed "']\">\n"] [] := by
  simp only [pieces, Element.source?_of_ne h]

theorem pieces_of_options (name label : String) (options : List String) :
    pieces (.select name label options none) =
      selectPieces name label [.fixed "<div>\n"] (options.flatMap optionPieces ++ [.fixed "\n"]) := rfl

def Piece.html (escaped : Bool) (content : String) : Piece → String
  | .fixed text => text
  | .value text => if escaped then escape text else text
  | .content => content

def html (escaped : Bool) (content : String) (ps : List Piece) : String :=
  String.join (ps.map (Piece.html escaped content))

/-- The option elements for a list of values, one after the other. -/
def optionsHtml (escaped : Bool) (values : List String) : String :=
  html escaped "" (values.flatMap optionPieces)

end FormDirectives.Html
