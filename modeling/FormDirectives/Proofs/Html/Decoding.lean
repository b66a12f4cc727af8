import FormDirectives.Proofs.Html.Opening

/-! Escaped HTML determines the form. The markup of an element begins like no closing tag, and what stands behind
    the content of a container begins with one; so a document is read off tree by tree. An opening tells the
    element, what stands below it ends where a closing tag comes after a line feed, and the trees after it go on
    behind that. -/

namespace FormDirectives

namespace Html
variable {escaped : Bool} {content : String} {ps : List Piece} {e : Element} {x : List Char}

def lines (documents : List String) : List Char := documents.flatMap fun d => '\n' :: d.toList

theorem toList_intercalate : ∀ documents : List String,
    ("\n".intercalate documents).toList = (lines documents).tail
  | [] => rfl
  | [d] => by simp [lines]
  | d :: e :: rest => by
    rw [String.intercalate_cons_cons, String.toList_append, String.toList_append, toList_intercalate (e :: rest)]
    simp [lines]

/-! ### Behind the content -/

def afterContent : List Piece → List Piece
  | [] => []
  | .content :: ps => ps
  | _ :: ps => afterContent ps

/-- The markup of an element behind its content. -/
def closing (e : Element) : List Char := chars (afterContent (pieces e))

/-- The markup of an element from its content on. -/
def remainder (e : Element) (below : List String) : List Char :=
  if e.isContainer then (lines below).tail ++ closing e else []

theorem html_beforeContent (escaped : Bool) (content : String) (ps : List Piece) :
    html escaped content (beforeContent ps) = html escaped "" (beforeContent ps) := by
  fun_induction beforeContent ps with
  | case1 => rfl
  | case2 ps => rfl
  | case3 p ps hp ih =>
    rw [html_cons, html_cons, ih]
    cases p with
    | content => exact absurd rfl hp
    | fixed text => rfl
    | value text => rfl

/-- A container shows its content once, and behind it comes a closing tag. -/
theorem pieces_of_container (he : e.Written) (h : e.isContainer = true) :
    ∃ text, pieces e = opening e ++ [.content, .fixed text] ∧ afterContent (pieces e) = [.fixed text] ∧
      ['\n', '<', '/'] <+: text.toList := by
  cases e with
  | root => exact he.elim
  | form action method =>
    exact ⟨_, rfl, rfl, prefix_append_text (prefix_append_text (prefix_ofList (by decide)) _) _⟩
  | group label => exact ⟨_, rfl, rfl, prefix_ofList (by decide)⟩
  | _ => cases h

theorem toList_markup (he : e.Written) (below : List String) :
    (e.markup true below).toList = chars (opening e) ++ remainder e below := by
  cases h : e.isContainer with
  | false =>
    rw [Element.markup_of_leaf h, opening_of_leaf h, remainder, h]
    exact (List.append_nil _).symm
  | true =>
    obtain ⟨text, hpieces, hclosing, -⟩ := pieces_of_container he h
    have hmarkup : e.markup true below = html true "" (opening e) ++ ("\n".intercalate below ++ text) := by
      rw [Element.markup, hpieces, html_append, opening, html_beforeContent, html_cons, html_cons]
      simp [Piece.html, html, String.join]
    rw [hmarkup, String.toList_append, String.toList_append, toList_intercalate, remainder, h, if_pos rfl, closing,
      hclosing, chars_fixed, chars_nil, List.append_nil]
    rfl

/-! ### Ends -/

/-- What may stand behind a tree and all its siblings: nothing, or a closing tag after a line feed. -/
def Ends (x : List Char) : Prop := x = [] ∨ ['\n', '<', '/'] <+: x

theorem ends_closing (he : e.Written) (h : e.isContainer = true) (x : List Char) : Ends (closing e ++ x) := by
  obtain ⟨text, -, hclosing, hends⟩ := pieces_of_container he h
  rw [closing, hclosing, chars_fixed, chars_nil, List.append_nil]
  exact Or.inr (hends.trans (List.prefix_append _ x))

theorem exists_opening (he : e.Written) : ∃ c rest, chars (opening e) = '<' :: c :: rest ∧ c ≠ '/' := by
  obtain ⟨k, -, tail, hk⟩ := exists_layout he
  obtain ⟨c, rest, hmark, hc⟩ := k.exists_mark
  exact ⟨c, rest ++ tail, by rw [← hk, hmark]; rfl, hc⟩

end Html

/-! ### Forests -/

namespace Forest

/-- The markup of each tree, with a line feed before it. -/
def trail (f : Forest Node) : List Char := Html.lines (f.markups true)

/-- A forest of elements that directives stand for, in which nothing stands below a leaf. -/
def Proper : Forest Node → Prop
  | .nil => True
  | .cons n below rest =>
    n.element.Written ∧ (n.isContainer = false → below = .nil) ∧ below.Proper ∧ rest.Proper

variable {f g : Forest Node} {x y : List Char}

theorem trail_cons {n : Node} (hn : n.element.Written) (below rest : Forest Node) (x : List Char) :
    (cons n below rest).trail ++ x = '\n' :: (Html.chars (Html.opening n.element) ++
      (Html.remainder n.element (below.markups true) ++ (rest.trail ++ x))) := by
  rw [trail, markups, Html.lines, List.flatMap_cons, Html.toList_markup hn]
  simp only [List.cons_append, List.append_assoc]
  rfl

theorem exists_trail {n : Node} (hn : n.element.Written) (below rest : Forest Node) :
    ∃ c tail, (cons n below rest).trail = '\n' :: '<' :: c :: tail ∧ c ≠ '/' := by
  obtain ⟨c, tail, hopening, hc⟩ := Html.exists_opening hn
  have htrail := trail_cons hn below rest []
  rw [List.append_nil, hopening] at htrail
  exact ⟨c, _, htrail, hc⟩

/-- What ends a forest is not taken for a tree. -/
theorem not_ends_trail {n : Node} (hn : n.element.Written) (below rest : Forest Node) (x : List Char) :
    ¬ Html.Ends ((cons n below rest).trail ++ x) := by
  obtain ⟨c, tail, htrail, hc⟩ := exists_trail hn below rest
  rw [htrail]
  rintro (h | ⟨after, h⟩)
  · cases h
  · simp only [List.cons_append, List.nil_append, List.cons.injEq] at h
    exact hc h.2.2.1.symm

theorem not_ends_tail_trail {n : Node} (hn : n.element.Written) (below rest : Forest Node) (x : List Char) :
    ¬ Html.Ends ((cons n below rest).trail.tail ++ x) := by
  obtain ⟨c, tail, htrail, -⟩ := exists_trail hn below rest
  rw [htrail]
  rintro (h | ⟨after, h⟩)
  · cases h
  · exact absurd (List.cons.inj h).1 (by decide)

theorem append_of_tail (hf : f.Proper) (hg : g.Proper) (hx : Html.Ends x) (hy : Html.Ends y)
    (h : f.trail.tail ++ x = g.trail.tail ++ y) : f.trail ++ x = g.trail ++ y := by
  match f, g with
  | .nil, .nil => exact h
  | .nil, .cons n below rest =>
    have hends : Html.Ends ((cons n below rest).trail.tail ++ y) := h ▸ hx
    exact absurd hends (not_ends_tail_trail hg.1 below rest y)
  | .cons n below rest, .nil =>
    have hends : Html.Ends ((cons n below rest).trail.tail ++ x) := h.symm ▸ hy
    exact absurd hends (not_ends_tail_trail hf.1 below rest x)
  | .cons n below rest, .cons m below' rest' =>
    obtain ⟨c, tail, htrail, -⟩ := exists_trail hf.1 below rest
    obtain ⟨d, tail', htrail', -⟩ := exists_trail hg.1 below' rest'
    rw [htrail, htrail'] at h ⊢
    exact congrArg ('\n' :: ·) h

/-- A trail tells the elements of its forest, and where it ends. -/
theorem trail_cancel : ∀ {f g : Forest Node} {x y : List Char}, f.Proper → g.Proper → Html.Ends x → Html.Ends y →
    f.trail ++ x = g.trail ++ y → f.map Node.element = g.map Node.element ∧ x = y
  | .nil, .nil, _, _, _, _, _, _, h => ⟨rfl, h⟩
  | .nil, .cons n below rest, x, y, _, hg, hx, _, h => by
    -- What ends the one forest would have to be a tree of the other.
    have hends : Html.Ends ((cons n below rest).trail ++ y) := h ▸ hx
    exact absurd hends (not_ends_trail hg.1 below rest y)
  | .cons n below rest, .nil, x, y, hf, _, _, hy, h => by
    have hends : Html.Ends ((cons n below rest).trail ++ x) := h.symm ▸ hy
    exact absurd hends (not_ends_trail hf.1 below rest x)
  | .cons n below rest, .cons m below' rest', x, y, ⟨hn, hleaf, hb, hr⟩, ⟨hm, hleaf', hb', hr'⟩, hx, hy, h => by
    rw [trail_cons hn, trail_cons hm] at h
    obtain ⟨helement, hinner⟩ := Html.opening_cancel hn hm (List.cons.inj h).2
    have hbelow : below.map Node.element = below'.map Node.element ∧ rest.trail ++ x = rest'.trail ++ y := by
      rw [helement] at hinner
      cases hcontainer : m.element.isContainer with
      | false =>
        -- A leaf has nothing below it, so its opening is all of its markup.
        obtain rfl := hleaf ((congrArg Element.isContainer helement).trans hcontainer)
        obtain rfl := hleaf' hcontainer
        simp only [Html.remainder, hcontainer] at hinner
        exact ⟨rfl, hinner⟩
      | true =>
        simp only [Html.remainder, hcontainer, if_true, List.append_assoc] at hinner
        -- What stands below ends at the closing tag, which is the same for both.
        have hends := Html.ends_closing hm hcontainer
        obtain ⟨hmap, hrest⟩ := trail_cancel hb hb' (hends _) (hends _)
          (append_of_tail hb hb' (hends _) (hends _) hinner)
        exact ⟨hmap, List.append_cancel_left hrest⟩
    obtain ⟨hmap, hxy⟩ := trail_cancel hr hr' hx hy hbelow.2
    exact ⟨by rw [map_cons, map_cons, helement, hbelow.1, hmap], hxy⟩

theorem markups_congr (escaped : Bool) (h : f.map Node.element = g.map Node.element) :
    f.markups escaped = g.markups escaped := by
  have hpieces : (f.map Node.element).map Html.pieces = (g.map Node.element).map Html.pieces := by rw [h]
  rw [map_map, map_map] at hpieces
  exact (markups_eq escaped f).trans ((congrArg _ (congrArg assemble hpieces)).trans (markups_eq escaped g).symm)

end Forest

/-- A directive never stands for the root, nor for a select that has both a source and options. -/
theorem Token.written_element (t : Token) : t.element.Written := by
  unfold Token.element
  split
  · next c _ => cases c <;> trivial
  · next f _ =>
    cases f with
    | select =>
      simp only [Field.element]
      split
      · next source hsource =>
        intro s hs
        cases hs
        exact ⟨Props.ne_of_nonempty? hsource, rfl⟩
      · intro s hs
        cases hs
    | _ => trivial
  · trivial
  · trivial

namespace Tree
variable {t u : Tree} {f g : Forest Node}

theorem Holds.proper : ∀ {places : Forest Nat}, t.Holds places → (∀ i ∈ places.toList, (t.nodeAt i).element.Written) →
    (places.map t.nodeAt).Proper
  | .nil, _, _ => trivial
  | .cons i below rest, ⟨⟨hi, hroots⟩, hb, hr⟩, hwritten => by
    simp only [Forest.toList_cons, List.mem_cons, List.mem_append] at hwritten
    refine ⟨hwritten i (Or.inl rfl), fun hleaf => ?_, hb.proper fun j hj => hwritten j (Or.inr (Or.inl hj)),
      hr.proper fun j hj => hwritten j (Or.inr (Or.inr hj))⟩
    obtain ⟨e, he⟩ : ∃ e, t.entries[i]? = some e := ⟨_, Array.getElem?_eq_getElem hi⟩
    rw [nodeAt_eq he] at hleaf
    have hnone : below.roots = [] := by
      rw [← hroots, children, Entry.childrenAt_eq he]
      exact t.linked.leaf he hleaf
    cases below with
    | nil => rfl
    | cons j _ _ => cases hnone

theorem Reads.proper {d : Forest Token} (h : t.Reads (d.map Token.node)) : (d.map Token.node).Proper := by
  obtain ⟨places, ⟨-, hplaces, -⟩, hnodes⟩ := h
  rw [← hnodes]
  refine hplaces.proper fun i hi => ?_
  have hmem : t.nodeAt i ∈ (d.map Token.node).toList := by
    rw [← hnodes, Forest.toList_map]
    exact List.mem_map_of_mem hi
  rw [Forest.toList_map] at hmem
  obtain ⟨token, -, htoken⟩ := List.mem_map.mp hmem
  rw [← htoken]
  exact token.written_element

theorem Reads.toList_html (h : t.Reads f) : (t.html true).toList = f.trail.tail := by
  rw [h.html_eq, Html.toList_intercalate]
  rfl

theorem Reads.html_eq_iff (hf : t.Reads f) (hg : u.Reads g) (hfproper : f.Proper) (hgproper : g.Proper) :
    t.html true = u.html true ↔ f.map Node.element = g.map Node.element := by
  refine ⟨fun h => ?_, fun h => ?_⟩
  · have htail : f.trail.tail ++ [] = g.trail.tail ++ [] := by
      rw [← hf.toList_html, ← hg.toList_html, h]
    have hends : Html.Ends [] := Or.inl rfl
    exact (Forest.trail_cancel hfproper hgproper hends hends
      (Forest.append_of_tail hfproper hgproper hends hends htail)).1
  · rw [hf.html_eq, hg.html_eq, Forest.markups_congr true h]

end Tree

/-- Two documents are rendered to the same escaped HTML exactly if their trees have the same elements, fields and
    all, in the same order and nested in the same way. -/
theorem escaped_html_determines (ts us : List Token) : ∃ p q f g, parse false ts = .ok p ∧ parse false us = .ok q ∧
    (∀ f', p.tree.Reads f' ↔ f' = f) ∧ (∀ g', q.tree.Reads g' ↔ g' = g) ∧
    (p.tree.html true = q.tree.html true ↔ f.map Node.element = g.map Node.element) := by
  obtain ⟨p, hp, hpreads, -⟩ := parse_false ts
  obtain ⟨q, hq, hqreads, -⟩ := parse_false us
  refine ⟨p, q, _, _, hp, hq, fun f' => ⟨hpreads.unique, fun h => h ▸ hpreads⟩,
    fun g' => ⟨hqreads.unique, fun h => h ▸ hqreads⟩, hpreads.html_eq_iff hqreads hpreads.proper hqreads.proper⟩

end FormDirectives
