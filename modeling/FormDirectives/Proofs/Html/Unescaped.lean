import FormDirectives.Proofs.Build.Accounting
import FormDirectives.Proofs.Build.Composition
import FormDirectives.Proofs.Build.DocumentOrder
import FormDirectives.Proofs.Html.Decoding

/-! Reports on what is not escaped. Escaping a text makes it longer if there is a special character in it, and leaves
    it as it is if there is none. So the HTML of a tree is the same with escaping and without exactly if none of its
    nodes is reported, and a node is reported exactly if its own markup is not the same. -/

namespace FormDirectives

/-- The text holds a character that has a meaning in HTML. -/
def hasSpecial (v : String) : Bool := v.toList.any Html.isSpecial

/-- The markup of the node itself is not the same with escaping and without. -/
def Node.altered (n : Node) : Bool := n.element.markup true [] ≠ n.element.markup false []

/-- The report is on a special character in a value that the markup of the node shows. -/
structure Node.Reports (n : Node) (d : Diagnostic) : Prop where
  line : d.line = some n.line
  issue : ∃ v, .value v ∈ Html.pieces n.element ∧ hasSpecial v = true ∧ d.issue = .unescapedContent n.kind v

def Issue.isUnescaped : Issue → Bool
  | unescapedContent .. => true
  | _ => false

theorem Issue.isUnescaped_of_not_isFinal {i : Issue} (h : i.isFinal = false) : i.isUnescaped = false := by
  cases i with
  | unescapedContent kind value => cases h
  | _ => rfl

namespace Html
variable {content : String} {ps inner : List Piece} {v : String}

/-! ### Texts and pieces -/

theorem length_escapedChar (c : Char) :
    1 ≤ (escapedChar c).length ∧ (isSpecial c = true → 1 < (escapedChar c).length) := by
  cases h : entity? c with
  | none =>
    rw [escapedChar_of_none h]
    exact ⟨Nat.le_refl 1, fun hspecial => by simp [isSpecial, h] at hspecial⟩
  | some e =>
    rw [escapedChar_of_some h]
    unfold entity? at h
    split at h <;> cases h <;> decide

theorem length_escapedChars : ∀ cs : List Char, cs.length ≤ (cs.flatMap escapedChar).length ∧
    (cs.any isSpecial = true → cs.length < (cs.flatMap escapedChar).length)
  | [] => ⟨Nat.le_refl 0, nofun⟩
  | c :: cs => by
    obtain ⟨hc, hspecial⟩ := length_escapedChar c
    obtain ⟨hcs, hany⟩ := length_escapedChars cs
    rw [List.flatMap_cons, List.length_append, List.length_cons, List.any_cons, Bool.or_eq_true]
    refine ⟨by omega, ?_⟩
    rintro (h | h)
    · have := hspecial h
      omega
    · have := hany h
      omega

theorem length_escape (v : String) :
    v.length ≤ (escape v).length ∧ (hasSpecial v = true → v.length < (escape v).length) := by
  have hlengths := length_escapedChars v.toList
  rwa [String.length_toList, ← String.length_ofList] at hlengths

theorem escape_of_plain (h : hasSpecial v = false) : escape v = v := by
  have hplain : v.toList.flatMap escapedChar = v.toList.flatMap fun c => [c] := by
    refine List.flatMap_congr fun c hc => escapedChar_of_none ?_
    have hc := List.any_eq_false.mp h c hc
    simpa [isSpecial] using hc
  rw [escape, hplain, List.flatMap_singleton', String.ofList_toList]

/-- Escaped pieces are never shorter, and longer if they show a special character. -/
theorem length_html (content : String) (ps : List Piece) :
    (html false content ps).length ≤ (html true content ps).length ∧
    ((∃ v, .value v ∈ ps ∧ hasSpecial v = true) → (html false content ps).length < (html true content ps).length) := by
  induction ps with
  | nil =>
    refine ⟨Nat.le_refl _, ?_⟩
    rintro ⟨v, hv, -⟩
    exact absurd hv List.not_mem_nil
  | cons p ps ih =>
    obtain ⟨hps, hlt⟩ := ih
    simp only [html_cons, String.length_append]
    cases p with
    | value w =>
      obtain ⟨hw, hspecial⟩ := length_escape w
      simp only [Piece.html, if_pos, Bool.false_eq_true, if_false]
      refine ⟨by omega, ?_⟩
      rintro ⟨v, hv, h⟩
      rcases List.mem_cons.mp hv with hv | hv
      · cases hv
        have := hspecial h
        omega
      · have := hlt ⟨v, hv, h⟩
        omega
    | fixed text | content =>
      simp only [Piece.html]
      refine ⟨by omega, ?_⟩
      rintro ⟨v, hv, h⟩
      rcases List.mem_cons.mp hv with hv | hv
      · cases hv
      · have := hlt ⟨v, hv, h⟩
        omega

theorem html_of_plain (h : ∀ v, .value v ∈ ps → hasSpecial v = false) :
    html true content ps = html false content ps := by
  refine congrArg String.join (List.map_congr_left fun p hp => ?_)
  cases p with
  | value v => exact escape_of_plain (h v hp)
  | _ => rfl

theorem html_eq_iff : html true content ps = html false content ps ↔ ∀ v, .value v ∈ ps → hasSpecial v = false := by
  refine ⟨fun h v hv => ?_, html_of_plain⟩
  rw [← Bool.not_eq_true]
  intro hspecial
  have hlt := (length_html content ps).2 ⟨v, hv, hspecial⟩
  rw [h] at hlt
  exact Nat.lt_irrefl _ hlt

theorem value_mem_fill : .value v ∈ fill inner ps ↔ .value v ∈ ps ∨ .content ∈ ps ∧ .value v ∈ inner := by
  fun_induction fill inner ps with
  | case1 => simp
  | case2 ps ih =>
    simp only [List.mem_append, ih, List.mem_cons, reduceCtorEq, false_or, true_or, true_and]
    tauto
  | case3 p ps hp ih =>
    simp only [List.mem_cons, ih, Ne.symm hp, false_or]
    tauto

theorem value_mem_below : ∀ {documents : List (List Piece)},
    .value v ∈ below documents ↔ ∃ ps ∈ documents, .value v ∈ ps
  | [] => by simp [below]
  | [ps] => by simp [below]
  | ps :: qs :: rest => by
    rw [below_cons_cons, List.mem_append, List.mem_cons, value_mem_below, List.exists_mem_cons_iff]
    simp

end Html

/-! ### Nodes -/

namespace Element
variable {e : Element} {v : String}

theorem content_mem_pieces (h : e.isContainer = true) : .content ∈ Html.pieces e := by
  cases e with
  | root | form action method | group label => simp [Html.pieces]
  | _ => cases h

/-- The values that are looked through for special characters are those that the markup shows. -/
theorem mem_shownValues (he : e = .root ∨ e.Written) : v ∈ e.shownValues ↔ .value v ∈ Html.pieces e := by
  cases e with
  | select name label options source =>
    have hwritten := he.resolve_left nofun
    cases source with
    | none =>
      rw [Html.pieces_of_options]
      simp [shownValues, Html.selectPieces, Html.labelPieces, Html.optionPieces]
      tauto
    | some source =>
      obtain ⟨hsource, rfl⟩ := hwritten source rfl
      rw [Html.pieces_of_source hsource]
      simp [shownValues, Html.selectPieces, Html.labelPieces]
      tauto
  | _ => simp [shownValues, Html.pieces, Html.labelPieces] <;> tauto

theorem markup_eq_iff {below : List String} : e.markup true below = e.markup false below ↔
    ∀ v, .value v ∈ Html.pieces e → hasSpecial v = false :=
  Html.html_eq_iff

end Element

namespace Node
variable {n : Node} {d : Diagnostic}

theorem not_altered_iff : ¬ n.altered = true ↔ ∀ v, .value v ∈ Html.pieces n.element → hasSpecial v = false := by
  rw [altered, decide_eq_true_iff, Ne, not_not, Element.markup_eq_iff]

/-- What stands below a node has no part in whether its markup is altered. -/
theorem altered_iff (n : Node) (below : List String) :
    n.altered = true ↔ n.element.markup true below ≠ n.element.markup false below := by
  rw [altered, decide_eq_true_iff, Ne, Ne, Element.markup_eq_iff, Element.markup_eq_iff]

theorem altered_eq (hn : n.element = .root ∨ n.element.Written) : n.altered = n.unescaped?.isSome := by
  rw [Bool.eq_iff_iff, ← not_iff_not, not_altered_iff, unescaped?, Option.isSome_map, List.find?_isSome]
  simp only [not_exists, not_and, Bool.not_eq_true, Element.mem_shownValues hn]
  rfl

theorem reports_of_unescaped? (hn : n.element = .root ∨ n.element.Written) (h : n.unescaped? = some d) :
    n.Reports d := by
  obtain ⟨v, hv, rfl⟩ := Option.map_eq_some_iff.mp h
  exact ⟨rfl, v, (Element.mem_shownValues hn).mp (List.mem_of_find?_eq_some hv), List.find?_some hv, rfl⟩

end Node

/-- What is given for some of the entries stands in the order of those entries. -/
theorem forall₂_filter_filterMap {α β : Type} {R : α → β → Prop} {p : α → Bool} {g : α → Option β} :
    ∀ {as : List α}, (∀ a ∈ as, p a = (g a).isSome ∧ ∀ b ∈ g a, R a b) → List.Forall₂ R (as.filter p) (as.filterMap g)
  | [], _ => .nil
  | a :: as, h => by
    obtain ⟨ha, hR⟩ := h a List.mem_cons_self
    have hrest := forall₂_filter_filterMap fun b hb => h b (List.mem_cons_of_mem a hb)
    cases hg : g a with
    | none =>
      rw [hg] at ha
      rwa [List.filter_cons_of_neg (by simp [ha]), List.filterMap_cons_none hg]
    | some b =>
      rw [hg] at ha
      rw [List.filter_cons_of_pos (by simp [ha]), List.filterMap_cons_some hg]
      exact .cons (hR b hg) hrest

/-! ### Trees -/

namespace Forest

/-- The values in the document of a forest are those of its elements. -/
theorem value_mem_pieces {v : String} : ∀ {f : Forest Node}, f.Proper →
    ((∃ ps ∈ f.pieces, .value v ∈ ps) ↔ ∃ n ∈ f.toList, .value v ∈ Html.pieces n.element)
  | .nil, _ => by simp [pieces, assemble]
  | .cons n below rest, ⟨_, hleaf, hbelow, hrest⟩ => by
    have hpieces : (cons n below rest).pieces =
        Html.fill (Html.below below.pieces) (Html.pieces n.element) :: rest.pieces := rfl
    -- What stands below a leaf would not be shown, so there must be nothing.
    have hcontent : .content ∈ Html.pieces n.element ∨ below = .nil := by
      cases h : n.isContainer with
      | true => exact Or.inl (Element.content_mem_pieces h)
      | false => exact Or.inr (hleaf h)
    rw [hpieces, List.exists_mem_cons_iff, Html.value_mem_fill, Html.value_mem_below, value_mem_pieces hbelow,
      value_mem_pieces hrest, toList_cons, List.exists_mem_cons_iff]
    simp only [List.mem_append, or_and_right, exists_or]
    rcases hcontent with hcontent | rfl
    · simp only [hcontent, true_and, or_assoc]
    · simp

end Forest

namespace Tree
variable {t : Tree} {f : Forest Node}

theorem Reads.html_eq_iff_plain (h : t.Reads f) (hf : f.Proper) : t.html true = t.html false ↔
    ∀ n ∈ f.toList, ∀ v, .value v ∈ Html.pieces n.element → hasSpecial v = false := by
  rw [h.html_pieces, h.html_pieces, Html.html_eq_iff]
  simp only [Html.value_mem_below]
  have hvalues (v : String) := Forest.value_mem_pieces (v := v) hf
  constructor
  · exact fun h n hn v hv => h v ((hvalues v).mpr ⟨n, hn, hv⟩)
  · intro h v hv
    obtain ⟨n, hn, hv⟩ := (hvalues v).mp hv
    exact h n hn v hv

end Tree

/-! ### Documents -/

section
variable {strict : Bool} {tokens : List Token} {p : Parsed} {d : Diagnostic}

theorem written_of_mem_nodes (h : parse strict tokens = .ok p) {n : Node} (hn : n ∈ p.tree.nodes) :
    n.element = .root ∨ n.element.Written := by
  rw [nodes_of_parse h] at hn
  rcases List.mem_cons.mp hn with rfl | hn
  · exact Or.inl rfl
  · obtain ⟨t, -, rfl⟩ := List.mem_map.mp hn
    exact Or.inr t.written_element

theorem not_isUnescaped_of_mem_parsed (h : parse strict tokens = .ok p) (hd : d ∈ p.diagnostics) :
    d.issue.isUnescaped = false := by
  obtain ⟨l, hl, -, -, hdiagnostics⟩ := parse_false tokens
  cases (parse_false_of_parse h).symm.trans hl
  rw [hdiagnostics, List.mem_append, List.mem_flatMap] at hd
  rcases hd with ⟨f, -, hd⟩ | hd
  · exact Issue.isUnescaped_of_not_isFinal (f.isFinal_of_mem_reports (List.mem_append_right f.lineReports hd))
  · obtain ⟨kind, hissue⟩ := Scope.issue_of_mem_unclosed hd
    rw [hissue]
    rfl

theorem not_isUnescaped_of_mem_lineDiagnostics {source : String} (hd : d ∈ lineDiagnostics source) :
    d.issue.isUnescaped = false := by
  obtain ⟨⟨line, number⟩, -, hread⟩ := List.mem_filterMap.mp hd
  cases line with
  | unparsable text =>
    cases hread
    rfl
  | _ => cases hread

/-- Without escaping, the reports of the rendering are those on the nodes that escaping would change. -/
theorem reports_unescaped (h : parse strict tokens = .ok p) :
    List.Forall₂ Node.Reports (p.tree.nodes.filter Node.altered) (p.tree.renderDiagnostics false) :=
  forall₂_filter_filterMap fun _ hn =>
    ⟨Node.altered_eq (written_of_mem_nodes h hn), fun _ => Node.reports_of_unescaped? (written_of_mem_nodes h hn)⟩

theorem renderDiagnostics_eq_nil_iff (h : parse strict tokens = .ok p) :
    p.tree.renderDiagnostics false = [] ↔ p.tree.html true = p.tree.html false := by
  have hreads := reads_document h
  have hroot : ∀ v, .value v ∈ Html.pieces .root → hasSpecial v = false := by simp [Html.pieces]
  rw [hreads.html_eq_iff_plain hreads.proper, ← List.length_eq_zero_iff, ← (reports_unescaped h).length_eq,
    List.length_eq_zero_iff, List.filter_eq_nil_iff, (inOrder_of_parse h).nodes_eq hreads, List.forall_mem_cons]
  simp only [Node.not_altered_iff]
  exact and_iff_right hroot

end

/-- Compiling with escaping reports what compiling without it reports, but for what is not escaped. -/
theorem diagnostics_escaped (config : Config) (source : String) :
    (compile { config with escape := true } source).map Compiled.diagnostics =
      (compile { config with escape := false } source).map fun c =>
        c.diagnostics.filter fun d => !d.issue.isUnescaped := by
  cases h : parse config.strict (tokenize source) with
  | error e => simp only [compile, h, Except.map]
  | ok p =>
    have hkept : (lineDiagnostics source ++ p.diagnostics).filter (fun d => !d.issue.isUnescaped) =
        lineDiagnostics source ++ p.diagnostics := by
      refine List.filter_eq_self.mpr fun d hd => ?_
      rcases List.mem_append.mp hd with hd | hd
      · rw [not_isUnescaped_of_mem_lineDiagnostics hd]
        rfl
      · rw [not_isUnescaped_of_mem_parsed h hd]
        rfl
    have hdropped : (p.tree.renderDiagnostics false).filter (fun d => !d.issue.isUnescaped) = [] := by
      refine List.filter_eq_nil_iff.mpr fun d hd => ?_
      obtain ⟨kind, value, hissue⟩ := Tree.issue_of_mem_renderDiagnostics hd
      simp [hissue, Issue.isUnescaped]
    simp only [compile, h, Except.map, Parsed.compiled, List.filter_append (_ ++ _), hkept, hdropped]
    rfl

/-- Without escaping there is one report for each node whose markup escaping would change, in the order of the nodes,
    and none exactly if it would change nothing; with escaping there is none. All else that is reported stays. -/
theorem unescaped_content_exact :
    (∀ (n : Node) (below : List String),
      n.altered = true ↔ n.element.markup true below ≠ n.element.markup false below) ∧
    (∀ tokens : List Token, ∃ p, parse false tokens = .ok p ∧
      List.Forall₂ Node.Reports (p.tree.nodes.filter Node.altered) (p.tree.renderDiagnostics false) ∧
      (p.tree.renderDiagnostics false = [] ↔ p.tree.html true = p.tree.html false) ∧
      p.tree.renderDiagnostics true = []) ∧
    ∀ (config : Config) (source : String),
      (compile { config with escape := true } source).map Compiled.diagnostics =
        (compile { config with escape := false } source).map fun c =>
          c.diagnostics.filter fun d => !d.issue.isUnescaped := by
  refine ⟨Node.altered_iff, fun tokens => ?_, diagnostics_escaped⟩
  obtain ⟨p, hp, -⟩ := parse_false tokens
  exact ⟨p, hp, reports_unescaped hp, renderDiagnostics_eq_nil_iff hp, rfl⟩

end FormDirectives
