import FormDirectives.Proofs.Html.Delimiters
import FormDirectives.Proofs.Html.Fetched
import FormDirectives.Proofs.Html.Unescaped
import FormDirectives.Proofs.Token.Printing

/-! Where the characters of the HTML come from. Each one is a character of the source, or one that fixed texts and
    entities are written with. So what no fixed text holds, a carriage return above all, gets into the HTML only from
    the source. -/

namespace FormDirectives
variable {c : Char} {v : String}

/-! ### Directives -/

namespace Text

theorem mem_of_mem_strip {cs : List Char} (h : c ∈ strip cs) : c ∈ cs := by
  obtain ⟨before, after, -, hline⟩ := exists_strip cs
  rw [hline]
  exact List.mem_append_left after (List.mem_append_right before h)

end Text

namespace Props

/-- The character stands in one of the values. -/
def Holds (p : Props) (c : Char) : Prop := ∃ e ∈ p.entries, c ∈ e.2.toList

theorem holds_of_get? {p : Props} {key : String} (h : p.get? key = some v) (hc : c ∈ v.toList) : p.Holds c :=
  have ⟨before, _, hentries, _⟩ := List.lookup_eq_some_iff.mp h
  ⟨(key, v), hentries ▸ List.mem_append_right before List.mem_cons_self, hc⟩

theorem holds_of_mem_text {p : Props} {key : String} (hc : c ∈ (p.text key).toList) : p.Holds c := by
  unfold text OrderedMap.getD at hc
  cases hvalue : p.get? key with
  | none => simp [hvalue] at hc
  | some v => exact holds_of_get? hvalue (by simpa [hvalue] using hc)

theorem holds_of_nonempty? {p : Props} {key : String} (h : p.nonempty? key = some v) (hc : c ∈ v.toList) : p.Holds c :=
  holds_of_get? (Option.filter_eq_some_iff.mp h).1 hc

/-- Where a value is missing, a word of the markup's own stands for it. -/
theorem holds_of_mem_getD {p : Props} {key fallback : String} (hfallback : Html.Plain fallback)
    (hc : c ∈ ((p.nonempty? key).getD fallback).toList) : p.Holds c ∨ Html.isMarkup c = true := by
  cases hvalue : p.nonempty? key with
  | none => exact Or.inr (hfallback c (by simpa [hvalue] using hc))
  | some v => exact Or.inl (holds_of_nonempty? hvalue (by simpa [hvalue] using hc))

end Props

theorem Container.mem_shownValues (container : Container) {p : Props} (hv : v ∈ (container.element p).shownValues)
    (hc : c ∈ v.toList) : p.Holds c ∨ Html.isMarkup c = true := by
  cases container with
  | form =>
    simp only [element, Element.shownValues, List.mem_cons, List.not_mem_nil, or_false] at hv
    rcases hv with rfl | rfl <;> exact Props.holds_of_mem_getD (Html.plain_ofList (by decide +kernel)) hc
  | group =>
    obtain rfl := List.mem_singleton.mp hv
    exact Or.inl (Props.holds_of_mem_text hc)

theorem Field.mem_shownValues (field : Field) {p : Props} (hv : v ∈ (field.element p).shownValues) (hc : c ∈ v.toList) :
    p.Holds c ∨ Html.isMarkup c = true := by
  cases field with
  | input =>
    simp only [element, Element.shownValues, List.mem_cons, List.not_mem_nil, or_false] at hv
    rcases hv with rfl | rfl | rfl
    · exact Or.inl (Props.holds_of_mem_text hc)
    · exact Or.inl (Props.holds_of_mem_text hc)
    · exact Props.holds_of_mem_getD (Html.plain_ofList (by decide +kernel)) hc
  | checkbox =>
    simp only [element, Element.shownValues, List.mem_cons, List.not_mem_nil, or_false] at hv
    rcases hv with rfl | rfl <;> exact Or.inl (Props.holds_of_mem_text hc)
  | select =>
    simp only [element] at hv
    split at hv
    · next hsource =>
      simp only [Element.shownValues, Option.toList_some, List.mem_append, List.mem_cons, List.not_mem_nil,
        or_false] at hv
      rcases hv with (rfl | rfl) | rfl
      · exact Or.inl (Props.holds_of_mem_text hc)
      · exact Or.inl (Props.holds_of_mem_text hc)
      · exact Or.inl (Props.holds_of_nonempty? hsource hc)
    · simp only [Element.shownValues, Option.toList_none, List.append_nil, List.mem_append, List.mem_cons,
        List.not_mem_nil, or_false] at hv
      rcases hv with (rfl | rfl) | hv
      · exact Or.inl (Props.holds_of_mem_text hc)
      · exact Or.inl (Props.holds_of_mem_text hc)
      · obtain ⟨option, hoption, rfl⟩ := List.mem_map.mp hv
        rw [String.toList_ofList] at hc
        exact Or.inl (Props.holds_of_mem_text (of_mem_splitOn hoption hc).2)
  | submit =>
    obtain rfl := List.mem_singleton.mp hv
    exact Or.inl (Props.holds_of_mem_text hc)

/-- What the markup of a directive shows are its properties, its name, and words of the markup's own. -/
theorem Token.mem_value {t : Token} (hv : .value v ∈ Html.pieces t.element) (hc : c ∈ v.toList) :
    (t.props.Holds c ∨ c ∈ t.directive.toList) ∨ Html.isMarkup c = true := by
  rw [← Element.mem_shownValues (Or.inr t.written_element)] at hv
  unfold element at hv
  split at hv
  · next container _ => exact (container.mem_shownValues hv hc).imp_left Or.inl
  · next field _ => exact (field.mem_shownValues hv hc).imp_left Or.inl
  · obtain rfl := List.mem_singleton.mp hv
    exact Or.inl (Or.inr hc)
  · obtain rfl := List.mem_singleton.mp hv
    exact Or.inl (Or.inr hc)

/-- Directives are read from the source, character by character. -/
theorem mem_source_of_mem_tokenize {source : String} {t : Token} (ht : t ∈ tokenize source)
    (h : t.props.Holds c ∨ c ∈ t.directive.toList) : c ∈ source.toList := by
  obtain ⟨i, cs, hcs, hread⟩ := exists_line_of_mem_readings ht
  suffices hmem : c ∈ Text.strip cs from
    (of_mem_splitOn (List.mem_of_getElem? hcs) (Text.mem_of_mem_strip hmem)).2
  rcases Line.read_cases cs with ⟨-, hcases⟩ | ⟨-, hcases | ⟨rest, hmarked, -, hcases⟩⟩ <;>
    rw [hcases] at hread
  · cases hread
  · cases hread
  · cases hread
    rw [hmarked]
    refine List.mem_cons_of_mem '@' ?_
    rcases h with ⟨e, he, hc⟩ | hc
    · obtain ⟨p, hp, rfl⟩ := List.mem_map.mp (OrderedMap.mem_ofList he)
      obtain ⟨-, -, hwithin⟩ := Props.mem_pairs _ hp
      rw [String.toList_ofList] at hc
      exact (List.dropWhile_sublist Text.isWord).subset (hwithin.subset (by simp [Props.pairChars, hc]))
    · rw [String.toList_ofList] at hc
      exact (List.takeWhile_sublist Text.isWord).subset hc

/-! ### Markup -/

namespace Html
variable {escaped : Bool} {content : String} {ps : List Piece}

theorem mem_escape (h : c ∈ (escape v).toList) : c ∈ v.toList ∨ isMarkup c = true ∨ c = '&' := by
  rw [escape, String.toList_ofList, List.mem_flatMap] at h
  obtain ⟨d, hd, hc⟩ := h
  cases hentity : entity? d with
  | none =>
    rw [escapedChar_of_none hentity, List.mem_singleton] at hc
    exact Or.inl (hc ▸ hd)
  | some e =>
    rw [escapedChar_of_some hentity] at hc
    have hentities : ∀ e ∈ entities, (e.toList.all fun c => isMarkup c || c == '&') = true := by decide +kernel
    have hwritten := List.all_eq_true.mp (hentities e (entity?_eq_some hentity).1) c hc
    rw [Bool.or_eq_true, beq_iff_eq] at hwritten
    exact Or.inr hwritten

theorem mem_html (hps : ∀ p ∈ ps, p.Plain) (h : c ∈ (html escaped content ps).toList) :
    c ∈ content.toList ∨ (∃ v, .value v ∈ ps ∧ c ∈ v.toList) ∨ isMarkup c = true ∨ c = '&' := by
  rw [html, String.toList_join, List.mem_flatMap] at h
  obtain ⟨text, htext, hc⟩ := h
  obtain ⟨p, hp, rfl⟩ := List.mem_map.mp htext
  cases p with
  | fixed text => exact Or.inr (Or.inr (Or.inl (hps _ hp c hc)))
  | content => exact Or.inl hc
  | value v =>
    cases escaped with
    | false => exact Or.inr (Or.inl ⟨v, hp, hc⟩)
    | true => exact Or.inr ((mem_escape hc).imp_left fun hc => ⟨v, hp, hc⟩)

end Html

theorem mem_intercalate : ∀ {texts : List String}, c ∈ ("\n".intercalate texts).toList →
    c = '\n' ∨ ∃ text ∈ texts, c ∈ text.toList
  | [], h => by simp at h
  | [text], h => by simpa using Or.inr h
  | text :: next :: rest, h => by
    rw [String.intercalate_cons_cons, String.toList_append, String.toList_append, List.mem_append, List.mem_append] at h
    rcases h with (h | h) | h
    · exact Or.inr ⟨text, List.mem_cons_self, h⟩
    · exact Or.inl (List.mem_singleton.mp h)
    · exact (mem_intercalate h).imp_right fun ⟨lower, hlower, hc⟩ => ⟨lower, List.mem_cons_of_mem text hlower, hc⟩

/-- The markups of a forest are written with the values of its elements, and with fixed texts and entities. -/
theorem Forest.mem_markups {escaped : Bool} {text : String} : ∀ {f : Forest Node}, text ∈ f.markups escaped →
    c ∈ text.toList → (∃ n ∈ f.toList, ∃ v, .value v ∈ Html.pieces n.element ∧ c ∈ v.toList) ∨
      Html.isMarkup c = true ∨ c = '&'
  | .cons n below rest, htext, hc => by
    rw [toList_cons, List.exists_mem_cons_iff]
    rcases List.mem_cons.mp htext with rfl | htext
    · rcases Html.mem_html (Html.plain_pieces n.element) hc with hc | hc | hc
      · rcases mem_intercalate hc with rfl | ⟨text, htext, hc⟩
        · exact Or.inr (Or.inl rfl)
        · refine (mem_markups htext hc).imp_left fun ⟨m, hm, hv⟩ => Or.inr ⟨m, ?_, hv⟩
          exact List.mem_append_left _ hm
      · exact Or.inl (Or.inl hc)
      · exact Or.inr hc
    · refine (mem_markups htext hc).imp_left fun ⟨m, hm, hv⟩ => Or.inr ⟨m, ?_, hv⟩
      exact List.mem_append_right _ hm

/-- Each character of the HTML is one of the source, or one that fixed texts and entities are written with. -/
theorem mem_source_of_mem_html {config : Config} {source : String} {r : Compiled} (h : compile config source = .ok r)
    (hc : c ∈ r.html.toList) : c ∈ source.toList ∨ Html.isMarkup c = true ∨ c = '&' := by
  rw [compile] at h
  cases hp : parse config.strict (tokenize source) with
  | error e =>
    rw [hp] at h
    cases h
  | ok p =>
    rw [hp] at h
    cases h
    have hreads := reads_document hp
    have hhtml : (p.compiled config source).html = "\n".intercalate
        (((document (tokenize source)).map Token.node).markups config.escape) := hreads.html_eq config.escape
    rw [hhtml] at hc
    rcases mem_intercalate hc with rfl | ⟨text, htext, hc⟩
    · exact Or.inr (Or.inl rfl)
    · rcases Forest.mem_markups htext hc with ⟨n, hn, v, hv, hc⟩ | hc
      · rw [toList_of_reads hp hreads] at hn
        obtain ⟨t, ht, rfl⟩ := List.mem_map.mp hn
        have hmem := (rooted_sublist 0 (tokenize source)).subset (List.mem_of_mem_filter ht)
        exact (Token.mem_value hv hc).imp (mem_source_of_mem_tokenize hmem) Or.inl
      · exact Or.inr hc

end FormDirectives
