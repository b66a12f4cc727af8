import FormDirectives.Proofs.Html.Delimiters
import FormDirectives.Proofs.Html.Unescape

/-! Escaped markup is read off from its front. Each value ends at the first delimiter behind it, so pieces that agree
    but for their values give the values back. The markup of an element up to its content tells which element it
    is and where that markup ends: the few texts that it can begin with are no beginnings of each other, and the
    two kinds of fields that begin alike differ behind their label. -/

namespace FormDirectives

namespace Html
variable {ps qs : List Piece} {x y : List Char}

def chars (ps : List Piece) : List Char := (html true "" ps).toList

@[simp] theorem chars_nil : chars [] = [] := rfl

theorem chars_append (ps qs : List Piece) : chars (ps ++ qs) = chars ps ++ chars qs := by
  rw [chars, html_append, String.toList_append]
  rfl

@[simp] theorem chars_fixed (text : String) (ps : List Piece) :
    chars (.fixed text :: ps) = text.toList ++ chars ps := by
  rw [chars, html_cons, String.toList_append]
  rfl

@[simp] theorem chars_value (v : String) (ps : List Piece) :
    chars (.value v :: ps) = v.toList.flatMap escapedChar ++ chars ps := by
  rw [chars, html_cons, String.toList_append, Piece.html, if_pos rfl, escape, String.toList_ofList]
  rfl

/-! ### Values -/

theorem escape_injective {vs ws : List Char} (h : vs.flatMap escapedChar = ws.flatMap escapedChar) : vs = ws := by
  have hv := unescapedChars_escape vs []
  rw [h, unescapedChars_escape ws []] at hv
  exact (List.append_cancel_right hv).symm

theorem isDelimiter_of_mem_escape {vs : List Char} {c : Char} (h : c ∈ vs.flatMap escapedChar) :
    isDelimiter c = false := by
  obtain ⟨v, -, hc⟩ := List.mem_flatMap.mp h
  exact Bool.eq_false_iff.mpr (List.filter_eq_nil_iff.mp (filter_escapedChar v) c hc)

def Marked (text : String) : Prop := ∃ c ∈ text.toList, isDelimiter c = true

theorem marked_ofList {cs : List Char} (h : cs.any isDelimiter = true) : Marked (String.ofList cs) := by
  rw [Marked, String.toList_ofList]
  exact List.any_eq_true.mp h

theorem Marked.append {a : String} (h : Marked a) (b : String) : Marked (a ++ b) := by
  obtain ⟨c, hc, hdelimiter⟩ := h
  exact ⟨c, by rw [String.toList_append]; exact List.mem_append_left _ hc, hdelimiter⟩

theorem takeWhile_of_delimiter {as bs : List Char} {c : Char} (has : ∀ a ∈ as, isDelimiter a = false)
    (hc : isDelimiter c = true) : (as ++ c :: bs).takeWhile (fun a => !isDelimiter a) = as := by
  have hplain : ∀ a ∈ as, (!isDelimiter a) = true := fun a ha => by rw [has a ha]; rfl
  rw [List.takeWhile_append_of_pos hplain, List.takeWhile_cons, hc]
  exact List.append_nil as

/-- An escaped value before a marked text ends where the text says. -/
theorem value_cancel {vs ws : List Char} {text : String} (hmarked : Marked text)
    (h : vs.flatMap escapedChar ++ (text.toList ++ x) = ws.flatMap escapedChar ++ (text.toList ++ y)) :
    vs = ws ∧ x = y := by
  obtain ⟨as, c, bs, htext, has, hc⟩ : ∃ as c bs, text.toList = as ++ c :: bs ∧
      (∀ a ∈ as, isDelimiter a = false) ∧ isDelimiter c = true := by
    obtain ⟨d, hd, hdelimiter⟩ := hmarked
    obtain ⟨c, as, bs, hnone, hc, htext, -⟩ := List.exists_of_eraseP hd hdelimiter
    exact ⟨as, c, bs, htext, fun a ha => by simpa using hnone a ha, hc⟩
  have hplain (us : List Char) : ∀ a ∈ us.flatMap escapedChar ++ as, isDelimiter a = false := fun a ha =>
    (List.mem_append.mp ha).elim isDelimiter_of_mem_escape (has a)
  -- Up to the first delimiter there is the value and what the text has before its own.
  have hbefore (us z : List Char) : (us.flatMap escapedChar ++ (text.toList ++ z)).takeWhile (fun a => !isDelimiter a) =
      us.flatMap escapedChar ++ as := by
    rw [htext, List.append_assoc, ← List.append_assoc, List.cons_append]
    exact takeWhile_of_delimiter (hplain us) hc
  have hvalue : vs.flatMap escapedChar ++ as = ws.flatMap escapedChar ++ as := by
    rw [← hbefore vs x, ← hbefore ws y, h]
  obtain rfl := escape_injective (List.append_cancel_right hvalue)
  exact ⟨rfl, List.append_cancel_left (List.append_cancel_left h)⟩

/-- Each value stands before a marked text, and there is no content. -/
def Delimited : List Piece → Prop
  | [] => True
  | .fixed _ :: ps => Delimited ps
  | .value _ :: .fixed text :: ps => Marked text ∧ Delimited (.fixed text :: ps)
  | _ => False

theorem Delimited.append (hp : Delimited ps) (hq : Delimited qs) : Delimited (ps ++ qs) := by
  fun_induction Delimited ps with
  | case1 => exact hq
  | case2 text ps ih => exact ih hp
  | case3 v text ps ih => exact ⟨hp.1, ih hp.2⟩
  | case4 => exact hp.elim

theorem blank_eq_fixed {p : Piece} {text : String} (h : .fixed text = p.blank) : p = .fixed text := by
  cases p with
  | fixed _ => exact h.symm
  | value _ => cases h
  | content => cases h

theorem blank_eq_value {p : Piece} {v : String} (h : (Piece.value v).blank = p.blank) : ∃ w, p = .value w := by
  cases p with
  | fixed _ => cases h
  | value w => exact ⟨w, rfl⟩
  | content => cases h

/-- Delimited pieces that agree but for their values are the same if their characters are, whatever follows. -/
theorem chars_cancel (hps : Delimited ps) (hblank : ps.map Piece.blank = qs.map Piece.blank)
    (h : chars ps ++ x = chars qs ++ y) : ps = qs ∧ x = y := by
  fun_induction Delimited ps generalizing qs with
  | case1 =>
    obtain rfl := List.map_eq_nil_iff.mp hblank.symm
    exact ⟨rfl, h⟩
  | case2 text ps ih =>
    obtain ⟨q, qs, rfl, hq, hqs⟩ := List.map_eq_cons_iff.mp hblank.symm
    obtain rfl := blank_eq_fixed hq.symm
    simp only [chars_fixed, List.append_assoc, List.append_cancel_left_eq] at h
    obtain ⟨rfl, hrest⟩ := ih hps hqs.symm h
    exact ⟨rfl, hrest⟩
  | case3 v text ps ih =>
    -- The text behind the value is used to find the end of the value, and stays.
    obtain ⟨q, qs', rfl, hq, hqs'⟩ := List.map_eq_cons_iff.mp hblank.symm
    obtain ⟨r, qs, rfl, hr, hqs⟩ := List.map_eq_cons_iff.mp hqs'
    obtain ⟨w, rfl⟩ := blank_eq_value hq.symm
    obtain rfl := blank_eq_fixed hr.symm
    simp only [chars_value, chars_fixed, List.append_assoc] at h
    obtain ⟨hvalue, hrest⟩ := value_cancel hps.1 h
    have htail : chars (.fixed text :: ps) ++ x = chars (.fixed text :: qs) ++ y := by
      simp only [chars_fixed, List.append_assoc, hrest]
    obtain ⟨htexts, hxy⟩ := ih hps.2 hqs'.symm htail
    exact ⟨by rw [String.toList_inj.mp hvalue, htexts], hxy⟩
  | case4 => exact hps.elim

def values (ps : List Piece) : List String :=
  ps.filterMap fun
    | .value v => some v
    | _ => none

/-! ### Parts of the markup -/

theorem delimited_labelPieces (label : String) : Delimited (labelPieces label) :=
  ⟨marked_ofList (by decide), trivial⟩

theorem delimited_optionPieces (option : String) : Delimited (optionPieces option) :=
  ⟨marked_ofList (by decide), marked_ofList (by decide), trivial⟩

theorem delimited_options : ∀ options : List String, Delimited (options.flatMap optionPieces)
  | [] => trivial
  | option :: options => (delimited_optionPieces option).append (delimited_options options)

/-- What stands in a select before its options. -/
def selectHead (name label : String) (head : List Piece) : List Piece :=
  head ++ labelPieces label ++
    [.fixed "  <select name=\"", .value name, .fixed s!"\"\n          class=\"{fieldClass}\">\n"]

theorem selectPieces_eq (name label : String) (head options : List Piece) : selectPieces name label head options =
    selectHead name label head ++ (options ++ [.fixed "  </select>\n</div>"]) := by
  simp only [selectPieces, selectHead, List.append_assoc]

theorem delimited_selectHead (name label : String) {head : List Piece} (h : Delimited head) :
    Delimited (selectHead name label head) :=
  (h.append (delimited_labelPieces label)).append ⟨((marked_ofList (by decide)).append _).append _, trivial⟩

theorem delimited_selectPieces (name label : String) {head options : List Piece} (hhead : Delimited head)
    (hoptions : Delimited options) : Delimited (selectPieces name label head options) := by
  rw [selectPieces_eq]
  exact (delimited_selectHead name label hhead).append (hoptions.append trivial)

theorem prefix_ofList {ms cs : List Char} (h : ms.isPrefixOf cs = true) : ms <+: (String.ofList cs).toList := by
  rw [String.toList_ofList]
  exact List.isPrefixOf_iff_prefix.mp h

theorem prefix_append_text {ms : List Char} {a : String} (h : ms <+: a.toList) (b : String) :
    ms <+: (a ++ b).toList := by
  rw [String.toList_append]
  exact h.trans (List.prefix_append a.toList b.toList)

theorem prefix_chars {ms cs : List Char} (h : ms.isPrefixOf cs = true) (ps : List Piece) :
    ms <+: chars (.fixed (String.ofList cs) :: ps) := by
  rw [chars_fixed]
  exact (prefix_ofList h).trans (List.prefix_append _ (chars ps))

theorem starts_comparable {ms ns : List Char} (hms : ms <+: chars ps) (hns : ns <+: chars qs)
    (h : chars ps ++ x = chars qs ++ y) : ms <+: ns ∨ ns <+: ms := by
  have hmsy : ms <+: chars qs ++ y := h ▸ hms.trans (List.prefix_append _ x)
  exact List.prefix_or_prefix_of_prefix hmsy (hns.trans (List.prefix_append _ y))

theorem chars_optionPieces (option : String) : ∃ rest, chars (optionPieces option) = '<' :: rest := by
  obtain ⟨rest, hrest⟩ : ['<'] <+: chars (optionPieces option) := prefix_chars (by decide) _
  exact ⟨rest, hrest.symm⟩

/-- The options end where a line feed stands. -/
theorem options_cancel : ∀ {as bs : List String},
    chars (as.flatMap optionPieces) ++ '\n' :: x = chars (bs.flatMap optionPieces) ++ '\n' :: y → as = bs ∧ x = y
  | [], [], h => ⟨rfl, (List.cons.inj h).2⟩
  | [], b :: bs, h => by
    obtain ⟨rest, hrest⟩ := chars_optionPieces b
    rw [List.flatMap_cons, chars_append, hrest] at h
    exact absurd (List.cons.inj h).1 (by decide)
  | a :: as, [], h => by
    obtain ⟨rest, hrest⟩ := chars_optionPieces a
    rw [List.flatMap_cons, chars_append, hrest] at h
    exact absurd (List.cons.inj h).1 (by decide)
  | a :: as, b :: bs, h => by
    rw [List.flatMap_cons, List.flatMap_cons, chars_append, chars_append, List.append_assoc, List.append_assoc] at h
    have hblank : (optionPieces a).map Piece.blank = (optionPieces b).map Piece.blank := rfl
    obtain ⟨hoption, hrest⟩ := chars_cancel (delimited_optionPieces a) hblank h
    obtain ⟨rfl, hxy⟩ := options_cancel hrest
    have hab : a = b := Piece.value.inj (List.cons.inj (List.cons.inj hoption).2).1
    exact ⟨by rw [hab], hxy⟩

/-! ### Openings -/

def beforeContent : List Piece → List Piece
  | [] => []
  | .content :: _ => []
  | p :: ps => p :: beforeContent ps

theorem beforeContent_of_notMem (h : .content ∉ ps) : beforeContent ps = ps := by
  fun_induction beforeContent ps with
  | case1 => rfl
  | case2 ps => exact absurd List.mem_cons_self h
  | case3 p ps hp ih => rw [ih fun hps => h (List.mem_cons_of_mem p hps)]

/-- The markup of an element up to its content. -/
def opening (e : Element) : List Piece := beforeContent (pieces e)

theorem opening_of_leaf {e : Element} (h : e.isContainer = false) : opening e = pieces e :=
  beforeContent_of_notMem (Element.content_notMem_pieces h)

/-- How the markup of an element begins. -/
inductive Layout
  | form
  | group
  | checkbox
  | fetching
  | field
  | submit
  | unknown

def Layout.mark : Layout → List Char
  | form => "<f".toList
  | group => "<div class=\"p".toList
  | checkbox => "<div class=\"f".toList
  | fetching => "<div h".toList
  | field => "<div>".toList
  | submit => "<b".toList
  | unknown => "<!".toList

/-- Every layout begins with a tag or a comment, none with a closing tag. -/
theorem Layout.exists_mark (k : Layout) : ∃ c rest, k.mark = '<' :: c :: rest ∧ c ≠ '/' := by
  cases k <;> exact ⟨_, _, rfl, by decide⟩

theorem Layout.eq_of_mark {k l : Layout} (h : k.mark <+: l.mark) : k = l := by
  cases k <;> cases l <;> first | rfl | exact absurd h (by decide)

end Html

namespace Element

/-- The elements that directives stand for: not the root, and no select that fetches its options and has some. -/
def Written : Element → Prop
  | root => False
  | select _ _ options source => ∀ s, source = some s → s ≠ "" ∧ options = []
  | _ => True

def layout? : Element → Option Html.Layout
  | root => none
  | form .. => some .form
  | group _ => some .group
  | input .. | select _ _ _ none => some .field
  | checkbox .. => some .checkbox
  | select _ _ _ (some _) => some .fetching
  | submit _ => some .submit
  | unknown _ => some .unknown

end Element

namespace Html
variable {e f : Element} {x y : List Char}

theorem exists_layout (he : e.Written) : ∃ k, e.layout? = some k ∧ k.mark <+: chars (opening e) := by
  cases e with
  | root => exact he.elim
  | form action method => exact ⟨.form, rfl, prefix_chars (by decide) _⟩
  | group label => exact ⟨.group, rfl, prefix_chars (by decide) _⟩
  | input name label type => exact ⟨.field, rfl, prefix_chars (by decide) _⟩
  | checkbox name label => exact ⟨.checkbox, rfl, prefix_chars (by decide) _⟩
  | select name label options source =>
    cases source with
    | none => exact ⟨.field, rfl, prefix_chars (by decide) _⟩
    | some source =>
      refine ⟨.fetching, rfl, ?_⟩
      rw [opening_of_leaf rfl, pieces_of_source (he source rfl).1]
      exact prefix_chars (by decide) _
  | submit label => exact ⟨.submit, rfl, prefix_chars (by decide) _⟩
  | unknown directive => exact ⟨.unknown, rfl, prefix_chars (by decide) _⟩

theorem layout?_eq (he : e.Written) (hf : f.Written) (h : chars (opening e) ++ x = chars (opening f) ++ y) :
    e.layout? = f.layout? := by
  obtain ⟨k, hk, hkmark⟩ := exists_layout he
  obtain ⟨l, hl, hlmark⟩ := exists_layout hf
  rw [hk, hl]
  rcases starts_comparable hkmark hlmark h with hkl | hlk
  · rw [Layout.eq_of_mark hkl]
  · rw [Layout.eq_of_mark hlk]

/-! ### Elements -/

theorem delimited_opening (e : Element) : Delimited (opening e) := by
  cases e with
  | root => trivial
  | form action method =>
    exact ⟨((marked_ofList (by decide)).append _).append _, marked_ofList (by decide), trivial⟩
  | group label => exact ⟨marked_ofList (by decide), trivial⟩
  | input name label type =>
    exact (delimited_labelPieces label).append
      ⟨marked_ofList (by decide), ((marked_ofList (by decide)).append _).append _, trivial⟩
  | checkbox name label =>
    exact ⟨marked_ofList (by decide), marked_ofList (by decide), marked_ofList (by decide),
      marked_ofList (by decide), trivial⟩
  | select name label options source =>
    rw [opening_of_leaf rfl]
    simp only [pieces]
    split
    · exact delimited_selectPieces name label ⟨marked_ofList (by decide), marked_ofList (by decide), trivial⟩ trivial
    · exact delimited_selectPieces name label trivial ((delimited_options options).append trivial)
  | submit label => exact ⟨marked_ofList (by decide), trivial⟩
  | unknown directive => exact ⟨marked_ofList (by decide), trivial⟩

/-- The start of a field that stands in a plain block. -/
def fieldHead (label : String) : List Piece := .fixed "<div>\n" :: labelPieces label

theorem delimited_fieldHead (label : String) : Delimited (fieldHead label) := delimited_labelPieces label

theorem exists_opening_input (name label type : String) :
    ∃ ps, opening (.input name label type) = fieldHead label ++ ps ∧ "  <i".toList <+: chars ps :=
  ⟨_, rfl, prefix_chars (by decide) _⟩

theorem exists_opening_select (name label : String) (options : List String) :
    ∃ ps, opening (.select name label options none) = fieldHead label ++ ps ∧ "  <s".toList <+: chars ps := by
  rw [opening_of_leaf rfl, pieces_of_options, selectPieces]
  simp only [List.append_assoc]
  exact ⟨_, rfl, prefix_chars (by decide) _⟩

/-- An input and a static select differ behind their labels. -/
theorem input_ne_select {name label type name' label' : String} {options : List String} :
    chars (opening (.input name label type)) ++ x ≠ chars (opening (.select name' label' options none)) ++ y := by
  intro h
  obtain ⟨ps, hinput, hps⟩ := exists_opening_input name label type
  obtain ⟨qs, hselect, hqs⟩ := exists_opening_select name' label' options
  rw [hinput, hselect, chars_append, chars_append, List.append_assoc, List.append_assoc] at h
  have hblank : (fieldHead label).map Piece.blank = (fieldHead label').map Piece.blank := rfl
  obtain ⟨-, hrest⟩ := chars_cancel (delimited_fieldHead label) hblank h
  exact absurd (starts_comparable hps hqs hrest) (by decide)

/-- Options may hold anything, and yet a static select ends where its last one does. -/
theorem select_cancel {name label name' label' : String} {options options' : List String}
    (h : chars (opening (.select name label options none)) ++ x =
      chars (opening (.select name' label' options' none)) ++ y) :
    Element.select name label options none = .select name' label' options' none ∧ x = y := by
  have hplain : Delimited [.fixed "<div>\n"] := trivial
  have hblank : (selectHead name label [.fixed "<div>\n"]).map Piece.blank =
      (selectHead name' label' [.fixed "<div>\n"]).map Piece.blank := rfl
  rw [opening_of_leaf rfl, opening_of_leaf rfl, pieces_of_options, pieces_of_options, selectPieces_eq, selectPieces_eq]
    at h
  simp only [chars_append, List.append_assoc] at h
  obtain ⟨hhead, hrest⟩ := chars_cancel (delimited_selectHead name label hplain) hblank h
  have hvalues : [label, name] = [label', name'] := congrArg values hhead
  rw [chars_fixed, List.append_assoc] at hrest
  obtain ⟨rfl, hend⟩ := options_cancel hrest
  cases hvalues
  exact ⟨rfl, List.append_cancel_left hend⟩

/-- The element with the values that its opening shows, unless it has options. -/
def Layout.restore : Layout → List String → Element
  | form, [action, method] => .form action method
  | group, [label] => .group label
  | checkbox, [name, _, _, label] => .checkbox name label
  | fetching, [source, name, label, _] => .select name label [] (some source)
  | field, [label, name, type] => .input name label type
  | submit, [label] => .submit label
  | unknown, [directive] => .unknown directive
  | _, _ => .root

theorem restore_cancel (k : Layout) (h : chars (opening e) ++ x = chars (opening f) ++ y)
    (hblank : (opening e).map Piece.blank = (opening f).map Piece.blank)
    (hrestore : k.restore (values (opening e)) = e) (hrestore' : k.restore (values (opening f)) = f) :
    e = f ∧ x = y := by
  obtain ⟨hsame, hxy⟩ := chars_cancel (delimited_opening e) hblank h
  exact ⟨by rw [← hrestore, ← hrestore', hsame], hxy⟩

theorem fetching_cancel {source name label source' name' label' : String} (hsource : source ≠ "")
    (hsource' : source' ≠ "") (h : chars (opening (.select name label [] (some source))) ++ x =
      chars (opening (.select name' label' [] (some source'))) ++ y) :
    Element.select name label [] (some source) = .select name' label' [] (some source') ∧ x = y := by
  refine restore_cancel .fetching h ?_ ?_ ?_
  · rw [opening_of_leaf rfl, opening_of_leaf rfl, pieces_of_source hsource, pieces_of_source hsource']
    rfl
  · rw [opening_of_leaf rfl, pieces_of_source hsource]
    rfl
  · rw [opening_of_leaf rfl, pieces_of_source hsource']
    rfl

/-- The opening of an element tells which element it is, and where it ends. -/
theorem opening_cancel (he : e.Written) (hf : f.Written) (h : chars (opening e) ++ x = chars (opening f) ++ y) :
    e = f ∧ x = y := by
  have hlayout := layout?_eq he hf h
  -- Only the pairs with one layout are left; the equation of characters is kept out of the match.
  revert h
  match e, f, hlayout with
  | .form .., .form .., _ => exact fun h => restore_cancel .form h rfl rfl rfl
  | .group _, .group _, _ => exact fun h => restore_cancel .group h rfl rfl rfl
  | .input .., .input .., _ => exact fun h => restore_cancel .field h rfl rfl rfl
  | .input .., .select _ _ _ none, _ => exact fun h => absurd h input_ne_select
  | .select _ _ _ none, .input .., _ => exact fun h => absurd h.symm input_ne_select
  | .select _ _ _ none, .select _ _ _ none, _ => exact select_cancel
  | .select _ _ _ (some source), .select _ _ _ (some source'), _ =>
    obtain ⟨hsource, rfl⟩ := he source rfl
    obtain ⟨hsource', rfl⟩ := hf source' rfl
    exact fetching_cancel hsource hsource'
  | .checkbox .., .checkbox .., _ => exact fun h => restore_cancel .checkbox h rfl rfl rfl
  | .submit _, .submit _, _ => exact fun h => restore_cancel .submit h rfl rfl rfl
  | .unknown _, .unknown _, _ => exact fun h => restore_cancel .unknown h rfl rfl rfl

end Html
end FormDirectives
