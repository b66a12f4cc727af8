import FormDirectives.Proofs.Build.Draft
import FormDirectives.Proofs.Html.Document

/-! Values cannot break out of escaped HTML. The characters that open and close tags, attributes and comments all
    come from fixed texts, and which fixed texts there are depends on the directives of a document and on how many
    options its selects have; so two documents that agree on these have the same delimiters in the same order. An
    ampersand is never anything but the start of an entity. -/

namespace FormDirectives

namespace Html
variable {escaped : Bool} {content : String} {ps qs : List Piece} {cs : List Char}

/-- The characters that open and close tags, attributes and comments. -/
def isDelimiter (c : Char) : Bool := c = '<' || c = '>' || c = '"' || c = '\''

def delimiters (s : String) : List Char := s.toList.filter isDelimiter

def entities : List String := ["&amp;", "&lt;", "&gt;", "&#34;", "&#39;"]

/-- Each ampersand is the first character of an entity. -/
def Guarded (s : String) : Prop :=
  ∀ before rest, s.toList = before ++ '&' :: rest → ∃ e ∈ entities, e.toList <+: '&' :: rest

/-! ### Delimiters -/

theorem delimiters_append (a b : String) : delimiters (a ++ b) = delimiters a ++ delimiters b := by
  rw [delimiters, String.toList_append, List.filter_append]
  rfl

theorem filter_escapedChar (c : Char) : (escapedChar c).filter isDelimiter = [] := by
  cases h : entity? c with
  | none =>
    have hc := entity?_eq_none h
    rw [escapedChar_of_none h]
    simp_all [isDelimiter]
  | some e =>
    rw [escapedChar_of_some h]
    unfold entity? at h
    split at h <;> cases h <;> rfl

theorem delimiters_escape (v : String) : delimiters (escape v) = [] := by
  rw [delimiters, escape, String.toList_ofList, List.filter_flatMap, List.flatMap_eq_nil_iff]
  exact fun c _ => filter_escapedChar c

def Piece.blank : Piece → Piece
  | .value _ => .value ""
  | p => p

theorem delimiters_html (ps : List Piece) :
    delimiters (html true "" ps) = delimiters (html true "" (ps.map Piece.blank)) := by
  induction ps with
  | nil => rfl
  | cons p ps ih =>
    rw [List.map_cons, html_cons, html_cons, delimiters_append, delimiters_append, ih]
    congr 1
    cases p with
    | value text => exact (delimiters_escape text).trans (delimiters_escape "").symm
    | fixed text => rfl
    | content => rfl

/-! ### Ampersands -/

theorem entity?_eq_some {c : Char} {e : String} (h : entity? c = some e) :
    e ∈ entities ∧ ∃ tail, e.toList = '&' :: tail ∧ '&' ∉ tail := by
  unfold entity? at h
  split at h <;> cases h <;> exact ⟨by decide, _, rfl, by decide⟩

def GuardedChars (cs : List Char) : Prop :=
  ∀ rest, '&' :: rest <:+ cs → ∃ e ∈ entities, e.toList <+: '&' :: rest

theorem guardedChars_nil : GuardedChars [] := fun rest h => by
  cases List.suffix_nil.mp h

theorem GuardedChars.cons {c : Char} (hc : c ≠ '&') (h : GuardedChars cs) : GuardedChars (c :: cs) := fun rest hrest => by
  rcases List.suffix_cons_iff.mp hrest with heq | hrest
  · exact absurd (List.cons.inj heq).1.symm hc
  · exact h rest hrest

theorem GuardedChars.append {as : List Char} (h : GuardedChars cs) (has : '&' ∉ as) : GuardedChars (as ++ cs) := by
  induction as with
  | nil => exact h
  | cons a as ih =>
    rw [List.mem_cons, not_or] at has
    exact (ih has.2).cons (Ne.symm has.1)

theorem guardedChars_escapedChar (h : GuardedChars cs) (c : Char) : GuardedChars (escapedChar c ++ cs) := by
  cases hc : entity? c with
  | none =>
    have hne : c ≠ '&' := fun heq => entity?_eq_none hc (heq ▸ List.mem_cons_self)
    rw [escapedChar_of_none hc]
    exact h.cons hne
  | some e =>
    obtain ⟨hmem, tail, htail, hclean⟩ := entity?_eq_some hc
    rw [escapedChar_of_some hc, htail, List.cons_append]
    intro rest hrest
    rcases List.suffix_cons_iff.mp hrest with heq | hrest
    · refine ⟨e, hmem, ?_⟩
      rw [heq, htail, List.cons_prefix_cons]
      exact ⟨rfl, List.prefix_append tail cs⟩
    · exact h.append hclean rest hrest

theorem guardedChars_escape (h : GuardedChars cs) (vs : List Char) : GuardedChars (vs.flatMap escapedChar ++ cs) := by
  induction vs with
  | nil => exact h
  | cons v vs ih =>
    rw [List.flatMap_cons, List.append_assoc]
    exact guardedChars_escapedChar ih v

theorem guardedChars_html (h : Clean ps) : GuardedChars (html true "" ps).toList := by
  fun_induction Clean ps with
  | case1 => exact guardedChars_nil
  | case2 text ps ih =>
    rw [html_cons, String.toList_append]
    exact (ih h.2).append h.1
  | case3 text ps ih =>
    rw [html_cons, String.toList_append, Piece.html, if_pos rfl, Html.escape, String.toList_ofList]
    exact guardedChars_escape (ih h) text.toList
  | case4 ps ih =>
    rw [html_cons, Piece.html, String.empty_append]
    exact ih h

theorem guarded_html (h : Clean ps) : Guarded (html true "" ps) := fun before rest heq =>
  guardedChars_html h rest ⟨before, heq.symm⟩

/-! ### Blank pieces -/

theorem map_blank_fill (inner ps : List Piece) :
    (fill inner ps).map Piece.blank = fill (inner.map Piece.blank) (ps.map Piece.blank) := by
  fun_induction fill inner ps with
  | case1 => rfl
  | case2 ps ih => rw [List.map_append, ih]; rfl
  | case3 p ps hp ih =>
    cases p with
    | content => exact absurd rfl hp
    | fixed text => rw [List.map_cons, ih]; rfl
    | value text => rw [List.map_cons, ih]; rfl

theorem map_blank_below : ∀ documents : List (List Piece),
    (below documents).map Piece.blank = below (documents.map (List.map Piece.blank))
  | [] => rfl
  | [ps] => by simp [below]
  | ps :: qs :: rest => by
    have hrest := map_blank_below (qs :: rest)
    rw [List.map_cons] at hrest
    rw [below_cons_cons, List.map_append, List.map_cons, hrest, List.map_cons, List.map_cons, below_cons_cons]
    rfl

end Html

theorem Forest.assemble_map_blank : ∀ f : Forest (List Html.Piece),
    (f.map (List.map Html.Piece.blank)).assemble = f.assemble.map (List.map Html.Piece.blank)
  | .nil => rfl
  | .cons ps below rest => by
    rw [map_cons, assemble, assemble_map_blank below, assemble_map_blank rest, assemble, List.map_cons,
      Html.map_blank_fill, Html.map_blank_below]

/-! ### Documents -/

namespace Token

/-- How many options a select has of its own; none are counted if it fetches them. -/
def optionCount? (t : Token) : Option Nat :=
  match t.props.nonempty? "source" with
  | some _ => none
  | none => some (splitOptions (t.props.text "options")).length

/-- The same directive, or two without a rendering rule; and selects that both fetch their options or have equally
    many. All else about the properties is left open, and so are the lines. -/
structure Alike (t u : Token) : Prop where
  directive : t.directive = u.directive ∨ t.role = .unknown ∧ u.role = .unknown
  options : t.role = .field .select → t.optionCount? = u.optionCount?

/-- The markup of the element that a directive stands for, without the values. -/
def frame (t : Token) : List Html.Piece := (Html.pieces t.element).map Html.Piece.blank

theorem Alike.role {t u : Token} (h : t.Alike u) : t.role = u.role := by
  rcases h.directive with heq | ⟨ht, hu⟩
  · exact congrArg Role.ofDirective heq
  · exact ht.trans hu.symm

end Token

namespace Html

/-- Without their values, the pieces of options show only how many there are. -/
theorem map_blank_options : ∀ {as bs : List String}, as.length = bs.length →
    (as.flatMap optionPieces).map Piece.blank = (bs.flatMap optionPieces).map Piece.blank
  | [], [], _ => rfl
  | a :: as, b :: bs, h => by
    rw [List.flatMap_cons, List.flatMap_cons, List.map_append, List.map_append,
      map_blank_options (Nat.succ_inj.mp h)]
    rfl

end Html

theorem Token.Alike.frame {t u : Token} (h : t.Alike u) : t.frame = u.frame := by
  have hoptions := h.options
  rw [h.role] at hoptions
  rw [Token.frame, Token.frame, Token.element, Token.element, h.role]
  cases hrole : u.role with
  | opener c => cases c <;> rfl
  | closer c => rfl
  | unknown => rfl
  | field f =>
    cases f with
    | input | checkbox | submit => rfl
    | select =>
      have hcount := hoptions hrole
      simp only [Token.optionCount?] at hcount
      simp only [Field.element]
      -- The counts tell whether options are fetched, and if they are not, how many there are.
      cases ht : t.props.nonempty? "source" <;> cases hu : u.props.nonempty? "source" <;>
        simp only [ht, hu, reduceCtorEq, Option.some.injEq] at hcount ⊢
      · simp only [Html.pieces_of_options, Html.selectPieces, List.map_append, Html.map_blank_options hcount]
        rfl
      · rw [Html.pieces_of_source (Props.ne_of_nonempty? ht), Html.pieces_of_source (Props.ne_of_nonempty? hu)]
        rfl

theorem Forest.map_blank_pieces (f : Forest Token) :
    (f.map Token.node).pieces.map (List.map Html.Piece.blank) = (f.map Token.frame).assemble := by
  rw [pieces, ← assemble_map_blank, map_map, map_map]
  rfl

namespace Tree
variable {t u : Tree} {f g : Forest Token}

theorem Reads.delimiters_html (h : t.Reads (f.map Token.node)) :
    Html.delimiters (t.html true) = Html.delimiters (Html.html true "" (Html.below (f.map Token.frame).assemble)) := by
  rw [h.html_pieces, Html.delimiters_html, Html.map_blank_below, Forest.map_blank_pieces]

theorem guarded_html (t : Tree) : Html.Guarded (t.html true) := by
  obtain ⟨f, hf⟩ := exists_reads t
  rw [hf.html_pieces]
  exact Html.guarded_html (Html.clean_below Forest.clean_pieces)

end Tree

/-- Two documents that agree on their directives and on how many options each select has, but on no value, are
    rendered with the same delimiters, and each ampersand of their HTML starts an entity. -/
theorem values_leave_delimiters {ts us : List Token} (h : List.Forall₂ Token.Alike ts us) :
    ∃ p q, parse false ts = .ok p ∧ parse false us = .ok q ∧
      Html.delimiters (p.tree.html true) = Html.delimiters (q.tree.html true) ∧
      Html.Guarded (p.tree.html true) ∧ Html.Guarded (q.tree.html true) := by
  obtain ⟨p, hp, hpreads, -⟩ := parse_false ts
  obtain ⟨q, hq, hqreads, -⟩ := parse_false us
  have hframe : (document ts).map Token.frame = (document us).map Token.frame :=
    document_map (h.imp fun t u htu => Or.inr ⟨htu.role, htu.frame⟩)
  refine ⟨p, q, hp, hq, ?_, p.tree.guarded_html, q.tree.guarded_html⟩
  rw [hpreads.delimiters_html, hqreads.delimiters_html, hframe]

/-- A form with both kinds of selects and a directive that has no rendering rule, and the same form with values that
    try to close tags, attributes and the comment. -/
theorem hostile_values_leave_delimiters :
    let ts : List Token := [⟨"form", .ofList [("action", "/save")], 1⟩,
      ⟨"select", .ofList [("name", "size"), ("options", "small,large")], 2⟩,
      ⟨"select", .ofList [("name", "city"), ("source", "/cities")], 3⟩, ⟨"chart", ∅, 4⟩, ⟨"endform", ∅, 5⟩]
    let us : List Token := [⟨"form", .ofList [("action", "\"><script>")], 7⟩,
      ⟨"select", .ofList [("options", "</select>,&lt;"), ("label", "'")], 8⟩,
      ⟨"select", .ofList [("source", "\" onload='x'>")], 9⟩, ⟨"--><b>", ∅, 10⟩, ⟨"endform", ∅, 11⟩]
    List.Forall₂ Token.Alike ts us ∧
    ∃ p q, parse false ts = .ok p ∧ parse false us = .ok q ∧
      Html.delimiters (p.tree.html true) = Html.delimiters (q.tree.html true) ∧
      Html.Guarded (p.tree.html true) ∧ Html.Guarded (q.tree.html true) := by
  intro ts us
  have h : List.Forall₂ Token.Alike ts us :=
    .cons ⟨Or.inl rfl, by decide⟩ <|
    .cons ⟨Or.inl rfl, by decide +kernel⟩ <|
    .cons ⟨Or.inl rfl, by decide +kernel⟩ <|
    .cons ⟨Or.inr (by decide), by decide⟩ <|
    .cons ⟨Or.inl rfl, by decide⟩ .nil
  exact ⟨h, values_leave_delimiters h⟩

end FormDirectives
