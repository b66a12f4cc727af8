import FormDirectives.Proofs.Build.Acceptance
import FormDirectives.Proofs.Html.Walk

/-! A document in pieces. Where an element shows its content stand the pieces of what is below it, so the HTML of a
    tree is one list of fixed texts and values, and escaping changes nothing but how the values are written. No
    fixed text holds an ampersand. -/

namespace FormDirectives

namespace Html
variable {escaped : Bool} {content : String} {inner ps qs : List Piece}

theorem html_append (escaped : Bool) (content : String) (ps qs : List Piece) :
    html escaped content (ps ++ qs) = html escaped content ps ++ html escaped content qs := by
  rw [html, List.map_append, String.join_append]
  rfl

theorem html_cons (escaped : Bool) (content : String) (p : Piece) (ps : List Piece) :
    html escaped content (p :: ps) = p.html escaped content ++ html escaped content ps := by
  rw [html, List.map_cons, String.join_cons]
  rfl

/-- The pieces with others where the content stands. -/
def fill (inner : List Piece) : List Piece → List Piece
  | [] => []
  | .content :: ps => inner ++ fill inner ps
  | p :: ps => p :: fill inner ps

theorem html_fill (escaped : Bool) (content : String) (inner ps : List Piece) :
    html escaped content (fill inner ps) = html escaped (html escaped content inner) ps := by
  fun_induction fill inner ps with
  | case1 => rfl
  | case2 ps ih => rw [html_append, html_cons, ih, Piece.html]
  | case3 p ps hp ih =>
    rw [html_cons, html_cons, ih]
    cases p with
    | content => exact absurd rfl hp
    | fixed text => rfl
    | value text => rfl

def below (documents : List (List Piece)) : List Piece := [.fixed "\n"].intercalate documents

theorem below_cons_cons (ps qs : List Piece) (rest : List (List Piece)) :
    below (ps :: qs :: rest) = ps ++ .fixed "\n" :: below (qs :: rest) := by
  rw [below, List.intercalate_cons_cons, List.append_assoc, List.singleton_append]
  rfl

theorem html_below (escaped : Bool) (content : String) : ∀ documents : List (List Piece),
    html escaped content (below documents) = "\n".intercalate (documents.map (html escaped content))
  | [] => rfl
  | [ps] => by simp [below]
  | ps :: qs :: rest => by
    rw [below_cons_cons, html_append, html_cons, html_below escaped content (qs :: rest)]
    simp only [List.map_cons, String.intercalate_cons_cons, String.append_assoc]
    rfl

/-! ### Fixed texts -/

/-- No fixed text of the pieces holds an ampersand. -/
def Clean : List Piece → Prop
  | [] => True
  | .fixed text :: ps => '&' ∉ text.toList ∧ Clean ps
  | .value _ :: ps | .content :: ps => Clean ps

theorem Clean.append (hp : Clean ps) (hq : Clean qs) : Clean (ps ++ qs) := by
  fun_induction Clean ps with
  | case1 => exact hq
  | case2 text ps ih => exact ⟨hp.1, ih hp.2⟩
  | case3 text ps ih => exact ih hp
  | case4 ps ih => exact ih hp

theorem Clean.fill (hinner : Clean inner) (h : Clean ps) : Clean (fill inner ps) := by
  fun_induction Html.fill inner ps with
  | case1 => trivial
  | case2 ps ih => exact hinner.append (ih h)
  | case3 p ps hp ih =>
    cases p with
    | content => exact absurd rfl hp
    | fixed text => exact ⟨h.1, ih h.2⟩
    | value text => exact ih h

theorem clean_below : ∀ {documents : List (List Piece)}, (∀ ps ∈ documents, Clean ps) → Clean (below documents)
  | [], _ => trivial
  | [ps], h => by simpa [below] using h ps List.mem_cons_self
  | ps :: qs :: rest, h => by
    have hrest : Clean (below (qs :: rest)) := clean_below fun qs hqs => h qs (List.mem_cons_of_mem ps hqs)
    rw [below_cons_cons]
    exact (h ps List.mem_cons_self).append ⟨by decide, hrest⟩

/-- The characters that fixed texts are written with: line feeds, and the printable part of ASCII without the
    ampersand. -/
def isMarkup (c : Char) : Bool := c = '\n' || (0x20 ≤ c.toNat && c.toNat < 0x7f && c ≠ '&')

def Plain (text : String) : Prop := ∀ c ∈ text.toList, isMarkup c = true

/-- A fixed text is plain; of values nothing is said. -/
def Piece.Plain : Piece → Prop
  | fixed text => Html.Plain text
  | _ => True

theorem clean_of_plain : ∀ {ps : List Piece}, (∀ p ∈ ps, p.Plain) → Clean ps
  | [], _ => trivial
  | .fixed text :: ps, h => by
    obtain ⟨htext, hps⟩ := List.forall_mem_cons.mp h
    exact ⟨fun hmem => absurd (htext _ hmem) (by decide), clean_of_plain hps⟩
  | .value _ :: ps, h => (clean_of_plain (List.forall_mem_cons.mp h).2 : Clean ps)
  | .content :: ps, h => (clean_of_plain (List.forall_mem_cons.mp h).2 : Clean ps)

/-- A text that is written out holds the characters that it is written with. -/
theorem plain_ofList {cs : List Char} (h : cs.all isMarkup = true) : Plain (String.ofList cs) := fun c hc => by
  rw [String.toList_ofList] at hc
  exact List.all_eq_true.mp h c hc

theorem Plain.append {a b : String} (ha : Plain a) (hb : Plain b) : Plain (a ++ b) := fun c hc => by
  rw [String.toList_append, List.mem_append] at hc
  exact hc.elim (ha c) (hb c)

theorem plain_resultId : Plain resultId := plain_ofList (by decide +kernel)

theorem plain_fieldClass : Plain fieldClass := plain_ofList (by decide +kernel)

theorem plain_buttonClass : Plain buttonClass := plain_ofList (by decide +kernel)

theorem plain_labelPieces (label : String) : ∀ p ∈ labelPieces label, p.Plain := by
  simp only [labelPieces, List.forall_mem_cons]
  refine ⟨plain_ofList ?_, trivial, plain_ofList ?_, List.forall_mem_nil _⟩ <;> decide +kernel

theorem plain_optionPieces (option : String) : ∀ p ∈ optionPieces option, p.Plain := by
  simp only [optionPieces, List.forall_mem_cons]
  refine ⟨plain_ofList ?_, trivial, plain_ofList ?_, trivial, plain_ofList ?_, List.forall_mem_nil _⟩ <;>
    decide +kernel

theorem plain_selectPieces (name label : String) {head options : List Piece} (hhead : ∀ p ∈ head, p.Plain)
    (hoptions : ∀ p ∈ options, p.Plain) : ∀ p ∈ selectPieces name label head options, p.Plain := by
  simp only [selectPieces, List.forall_mem_append, List.forall_mem_cons]
  refine ⟨⟨⟨⟨hhead, plain_labelPieces label⟩, plain_ofList ?_, trivial,
    ((plain_ofList ?_).append plain_fieldClass).append (plain_ofList ?_), List.forall_mem_nil _⟩, hoptions⟩,
    plain_ofList ?_, List.forall_mem_nil _⟩ <;> decide +kernel

theorem plain_pieces (e : Element) : ∀ p ∈ pieces e, p.Plain := by
  cases e with
  | root => simp [pieces, Piece.Plain]
  | form action method =>
    simp only [pieces, List.forall_mem_cons]
    refine ⟨plain_ofList ?_, trivial, ((plain_ofList ?_).append plain_resultId).append (plain_ofList ?_), trivial,
      plain_ofList ?_, trivial, ((plain_ofList ?_).append plain_resultId).append (plain_ofList ?_),
      List.forall_mem_nil _⟩ <;> decide +kernel
  | group label =>
    simp only [pieces, List.forall_mem_cons]
    refine ⟨plain_ofList ?_, trivial, plain_ofList ?_, trivial, plain_ofList ?_, List.forall_mem_nil _⟩ <;>
      decide +kernel
  | input name label type =>
    simp only [pieces, List.forall_mem_append, List.forall_mem_cons]
    refine ⟨⟨⟨plain_ofList ?_, List.forall_mem_nil _⟩, plain_labelPieces label⟩, plain_ofList ?_, trivial,
      plain_ofList ?_, trivial, ((plain_ofList ?_).append plain_fieldClass).append (plain_ofList ?_),
      List.forall_mem_nil _⟩ <;> decide +kernel
  | checkbox name label =>
    simp only [pieces, List.forall_mem_cons]
    refine ⟨plain_ofList ?_, trivial, plain_ofList ?_, trivial, plain_ofList ?_, plain_ofList ?_, plain_ofList ?_,
      trivial, plain_ofList ?_, trivial, plain_ofList ?_, List.forall_mem_nil _⟩ <;> decide +kernel
  | select name label options source =>
    simp only [pieces]
    split
    · refine plain_selectPieces name label ?_ (List.forall_mem_nil _)
      simp only [List.forall_mem_cons]
      refine ⟨plain_ofList ?_, trivial, plain_ofList ?_, trivial, plain_ofList ?_, List.forall_mem_nil _⟩ <;>
        decide +kernel
    · refine plain_selectPieces name label ?_ ?_
      · exact List.forall_mem_singleton.mpr (plain_ofList (by decide +kernel))
      · refine List.forall_mem_append.mpr ⟨fun p hp => ?_, List.forall_mem_singleton.mpr (plain_ofList ?_)⟩
        · obtain ⟨option, -, hp⟩ := List.mem_flatMap.mp hp
          exact plain_optionPieces option p hp
        · decide +kernel
  | submit label =>
    simp only [pieces, List.forall_mem_cons]
    refine ⟨plain_ofList ?_, plain_buttonClass, plain_ofList ?_, trivial, plain_ofList ?_, List.forall_mem_nil _⟩ <;>
      decide +kernel
  | unknown directive =>
    simp only [pieces, List.forall_mem_cons]
    refine ⟨plain_ofList ?_, trivial, plain_ofList ?_, List.forall_mem_nil _⟩ <;> decide +kernel

theorem clean_pieces (e : Element) : Clean (pieces e) := clean_of_plain (plain_pieces e)

end Html

/-! ### The pieces of a tree -/

namespace Forest

def assemble : Forest (List Html.Piece) → List (List Html.Piece)
  | .nil => []
  | .cons ps below rest => Html.fill (Html.below below.assemble) ps :: rest.assemble

def pieces (f : Forest Node) : List (List Html.Piece) := (f.map fun n => Html.pieces n.element).assemble

theorem markups_eq (escaped : Bool) : ∀ f : Forest Node, f.markups escaped = f.pieces.map (Html.html escaped "")
  | .nil => rfl
  | .cons n below rest => by
    have hbelow := markups_eq escaped below
    have hrest := markups_eq escaped rest
    rw [pieces] at hbelow hrest
    rw [markups, pieces, map_cons, assemble, List.map_cons, Html.html_fill, Html.html_below, ← hbelow, ← hrest,
      Element.markup]

theorem clean_pieces : ∀ {f : Forest Node}, ∀ ps ∈ f.pieces, Html.Clean ps
  | .cons n below rest, ps, hps => by
    rcases List.mem_cons.mp hps with rfl | hps
    · exact (Html.clean_below clean_pieces).fill (Html.clean_pieces n.element)
    · exact clean_pieces ps hps

end Forest

namespace Tree
variable {t : Tree}

/-- The HTML of a tree are the markups of the forest below its root, one below the other. -/
theorem Reads.html_eq {f : Forest Node} (h : t.Reads f) (escaped : Bool) :
    t.html escaped = "\n".intercalate (f.markups escaped) := by
  obtain ⟨places, hplaces, rfl⟩ := h
  have hmarkups := markups_reading escaped hplaces rfl
  rw [Forest.map_cons, Forest.map_nil, Forest.markups, nodeAt_zero, Element.markup_root] at hmarkups
  exact (List.singleton_inj.mp hmarkups).symm

theorem Reads.html_pieces {f : Forest Node} (h : t.Reads f) (escaped : Bool) :
    t.html escaped = Html.html escaped "" (Html.below f.pieces) := by
  rw [h.html_eq, Forest.markups_eq, Html.html_below]

/-- Whatever was done to a tree, a forest is read from it. -/
theorem exists_reads (t : Tree) : ∃ f : Forest Node, t.Reads f := by
  obtain ⟨places, hplaces⟩ := t.exists_below
  exact ⟨places.map t.nodeAt, places, hplaces, rfl⟩

end Tree
end FormDirectives
