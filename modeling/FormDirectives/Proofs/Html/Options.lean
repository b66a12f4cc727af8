import FormDirectives.Datasource
import FormDirectives.Proofs.Html.Fetched

/-! Options. A datasource answers with the option elements of its values, and a select that holds the same values
    shows the same elements, behind an opening of its own and before a closing. The options of a select are written
    with commas between them, which loses nothing if there is a value at all and none of them holds a comma. -/

namespace FormDirectives

/-! ### Options in a text -/

section
variable {values : List String}

theorem splitOptions_intercalate (h : values ≠ []) (hcommas : ∀ v ∈ values, ',' ∉ v.toList) :
    splitOptions (",".intercalate values) = values := by
  have hsplit : (",".intercalate values).toList.splitOn ',' = values.map String.toList := by
    rw [String.toList_intercalate]
    refine List.splitOn_intercalate ',' (fun l hl => ?_) (by simpa using h)
    obtain ⟨v, hv, rfl⟩ := List.mem_map.mp hl
    exact hcommas v hv
  rw [splitOptions, hsplit, List.map_map]
  exact (List.map_congr_left fun v _ => String.ofList_toList).trans (List.map_id values)

theorem intercalate_splitOptions (text : String) : ",".intercalate (splitOptions text) = text := by
  have hchars : (splitOptions text).map String.toList = text.toList.splitOn ',' := by
    rw [splitOptions, List.map_map]
    exact (List.map_congr_left fun cs _ => String.toList_ofList).trans (List.map_id _)
  rw [← String.toList_inj, String.toList_intercalate, hchars]
  exact List.intercalate_splitOn ','

end

/-! ### Option elements -/

namespace Html

/-- A text in the HTML, escaped or as it is. -/
def shown (escaped : Bool) (text : String) : String := if escaped then escape text else text

/-- The option element of a value, which stands in it twice. -/
def optionHtml (escaped : Bool) (value : String) : String :=
  String.join ["<option value=\"", shown escaped value, "\">", shown escaped value, "</option>"]

section
variable (escaped : Bool) (content text : String) (ps : List Piece)

theorem html_nil : html escaped content [] = "" := rfl

theorem html_fixed : html escaped content (.fixed text :: ps) = text ++ html escaped content ps :=
  html_cons escaped content (.fixed text) ps

theorem html_value : html escaped content (.value text :: ps) = shown escaped text ++ html escaped content ps :=
  html_cons escaped content (.value text) ps

end

theorem html_optionPieces (escaped : Bool) (content value : String) :
    html escaped content (optionPieces value) = optionHtml escaped value := rfl

theorem html_options (escaped : Bool) (content : String) (values : List String) :
    html escaped content (values.flatMap optionPieces) = String.join (values.map (optionHtml escaped)) := by
  induction values with
  | nil => rfl
  | cons value values ih =>
    rw [List.flatMap_cons, html_append, html_optionPieces, ih, List.map_cons, String.join_cons]

/-- What stands before the options of a select that holds them. -/
def optionsOpening (escaped : Bool) (name label : String) : String :=
  "<div>\n" ++ "  <label class=\"block mb-2 text-sm font-medium text-gray-900\">" ++ shown escaped label ++
    "</label>\n" ++ "  <select name=\"" ++ shown escaped name ++ s!"\"\n          class=\"{fieldClass}\">\n"

def optionsClosing : String := "\n" ++ "  </select>\n</div>"

theorem html_select (escaped : Bool) (content name label : String) (values : List String) :
    html escaped content (pieces (.select name label values none)) =
      optionsOpening escaped name label ++ optionsHtml escaped values ++ optionsClosing := by
  simp only [pieces_of_options, selectPieces, labelPieces, optionsHtml, html_append, html_options, html_fixed,
    html_value, html_nil, optionsOpening, optionsClosing, String.append_assoc, String.append_empty]

end Html

/-! ### Selects -/

/-- The properties of a select with the options that it holds. -/
def Props.ofOptions (name label : String) (options : List String) : Props :=
  .ofList [("name", name), ("label", label), ("options", ",".intercalate options)]

namespace Token
variable {t : Token}

/-- A select without a source holds the options that are written in its properties. -/
theorem element_of_select (h : t.directive = "select") (hsource : t.props.nonempty? "source" = none) :
    t.element = .select (t.props.text "name") (t.props.text "label") (splitOptions (t.props.text "options")) none := by
  simp only [element, role_eq_select.mpr h, Field.element, hsource]

theorem nonempty?_of_not_isDynamic (h : t.directive = "select") (hstatic : t.element.isDynamic = false) :
    t.props.nonempty? "source" = none := by
  have hdynamic : t.element.isDynamic = (t.props.nonempty? "source").isSome := (offers_node h).dynamic
  rw [hstatic] at hdynamic
  exact Option.isNone_iff_eq_none.mp (Option.isSome_eq_false_iff.mp hdynamic.symm)

end Token

/-- The HTML of a form that is one field. -/
theorem html_of_field {t : Token} {f : Field} (h : t.role = .field f) (escaped : Bool) :
    ∃ p, parse false [t] = .ok p ∧ p.tree.html escaped = t.element.markup escaped [] := by
  obtain ⟨p, hp, hreads, -⟩ := parse_false [t]
  have hdocument : document [t] = .leaf t := by
    simp only [document, List.foldl_cons, List.foldl_nil, Draft.empty, Draft.read, h]
    rfl
  refine ⟨p, hp, ?_⟩
  rw [hreads.html_eq, hdocument]
  exact String.intercalate_singleton

namespace Props
variable (name label : String) (options : List String)

theorem text_ofOptions : (ofOptions name label options).text "name" = name ∧
    (ofOptions name label options).text "label" = label ∧
    (ofOptions name label options).text "options" = ",".intercalate options ∧
    (ofOptions name label options).nonempty? "source" = none := by
  simp only [text, nonempty?, OrderedMap.getD, ofOptions, OrderedMap.get?_ofList]
  exact ⟨by simp, by simp, by simp, by simp⟩

end Props

theorem element_ofOptions {values : List String} (h : values ≠ []) (hcommas : ∀ v ∈ values, ',' ∉ v.toList)
    (name label : String) (line : Int) :
    Token.element ⟨"select", .ofOptions name label values, line⟩ = .select name label values none := by
  obtain ⟨hname, hlabel, hoptions, hsource⟩ := Props.text_ofOptions name label values
  rw [Token.element_of_select rfl hsource, hname, hlabel, hoptions, splitOptions_intercalate h hcommas]

theorem Registry.resolve_of_not_contains {r : Registry} {source : String} (h : r.contains source = false) :
    r.resolve source = [] := by
  have hnone : r.entries.get? source = none := Option.isNone_iff_eq_none.mp (Option.isSome_eq_false_iff.mp h)
  rw [resolve, OrderedMap.getD, hnone, Option.getD_none]

/-- A datasource answers with one option element for each of its values, in their order, and with nothing if it is not
    registered. A select with the same values, written with commas between them, holds these values again and shows
    just that answer, between an opening in which only its name and its label vary and a closing in which nothing
    does. What is written as the options of a select can always be put together again from those that it holds. -/
theorem endpoint_answers_options :
    (∀ (r : Registry) (source : String) (escaped : Bool),
      r.optionsHtml escaped source = String.join ((r.resolve source).map (Html.optionHtml escaped)) ∧
      (r.contains source = false → r.optionsHtml escaped source = "")) ∧
    (∀ (r : Registry) (source : String), r.resolve source ≠ [] → (∀ v ∈ r.resolve source, ',' ∉ v.toList) →
      ∀ (name label : String) (line : Int) (escaped : Bool),
        Token.element ⟨"select", .ofOptions name label (r.resolve source), line⟩ =
          .select name label (r.resolve source) none ∧
        (∀ below, (Element.select name label (r.resolve source) none).markup escaped below =
          Html.optionsOpening escaped name label ++ r.optionsHtml escaped source ++ Html.optionsClosing) ∧
        ∃ p, parse false [⟨"select", .ofOptions name label (r.resolve source), line⟩] = .ok p ∧
          p.tree.html escaped =
            Html.optionsOpening escaped name label ++ r.optionsHtml escaped source ++ Html.optionsClosing) ∧
    ∀ t : Token, t.directive = "select" → t.element.isDynamic = false →
      ",".intercalate t.element.options = t.props.text "options" := by
  refine ⟨fun r source escaped => ⟨Html.html_options escaped "" _, fun h => ?_⟩, ?_, fun t h hstatic => ?_⟩
  · rw [Registry.optionsHtml, Registry.resolve_of_not_contains h]
    rfl
  · intro r source hvalues hcommas name label line escaped
    have helement := element_ofOptions hvalues hcommas name label line
    obtain ⟨p, hp, hhtml⟩ := html_of_field (t := ⟨"select", .ofOptions name label (r.resolve source), line⟩)
      (Token.role_eq_select.mpr rfl) escaped
    refine ⟨helement, fun below => Html.html_select escaped _ name label _, p, hp, ?_⟩
    rw [hhtml, helement]
    exact Html.html_select escaped _ name label _
  · rw [Token.element_of_select h (Token.nonempty?_of_not_isDynamic h hstatic)]
    exact intercalate_splitOptions _

/-- An empty value, one that is marked up and one that holds an entity, in a registry with another source. -/
theorem marked_up_values_answered :
    let r : Registry := { entries := .ofList [("/towns", []), ("/rates", ["", "<b>1</b>", "R&amp;D"])] }
    (r.resolve "/rates" ≠ [] ∧ ∀ v ∈ r.resolve "/rates", ',' ∉ v.toList) ∧
    splitOptions ",<b>1</b>,R&amp;D" = ["", "<b>1</b>", "R&amp;D"] ∧
    ∃ p, parse false [⟨"select", .ofOptions "rate" "Rate" ["", "<b>1</b>", "R&amp;D"], 1⟩] = .ok p ∧
      p.tree.html true = Html.optionsOpening true "rate" "Rate" ++
        String.join (["", "<b>1</b>", "R&amp;D"].map (Html.optionHtml true)) ++ Html.optionsClosing := by
  intro r
  have hvalues : r.resolve "/rates" = ["", "<b>1</b>", "R&amp;D"] := by decide
  have hcommas : ∀ v ∈ r.resolve "/rates", ',' ∉ v.toList := by
    rw [hvalues]
    decide
  obtain ⟨hanswers, hselect, -⟩ := endpoint_answers_options
  obtain ⟨-, -, p, hp, hhtml⟩ := hselect r "/rates" (by simp [hvalues]) hcommas "rate" "Rate" 1 true
  rw [(hanswers r "/rates" true).1, hvalues] at hhtml
  rw [hvalues] at hp
  exact ⟨⟨by simp [hvalues], hcommas⟩, by decide, p, hp, hhtml⟩

end FormDirectives
