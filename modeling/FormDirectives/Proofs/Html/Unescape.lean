import FormDirectives.Proofs.Html.Document

/-! Escaping undone. One pass over escaped HTML that puts its character in the place of each entity gives the HTML
    that is not escaped: fixed texts hold no ampersand, so entities stand only where a value is written, and each
    value is escaped once however deep it is nested. -/

namespace FormDirectives

namespace Html
variable {cs : List Char} {ps : List Piece}

/-- One pass from left to right, with the character of each entity in its place. -/
def unescapedChars : List Char → List Char
  | '&' :: 'a' :: 'm' :: 'p' :: ';' :: rest => '&' :: unescapedChars rest
  | '&' :: 'l' :: 't' :: ';' :: rest => '<' :: unescapedChars rest
  | '&' :: 'g' :: 't' :: ';' :: rest => '>' :: unescapedChars rest
  | '&' :: '#' :: '3' :: '4' :: ';' :: rest => '"' :: unescapedChars rest
  | '&' :: '#' :: '3' :: '9' :: ';' :: rest => '\'' :: unescapedChars rest
  | c :: rest => c :: unescapedChars rest
  | [] => []

def unescape (s : String) : String := String.ofList (unescapedChars s.toList)

/-- What is no ampersand starts no entity. -/
theorem unescapedChars_cons {c : Char} (h : c ≠ '&') (rest : List Char) :
    unescapedChars (c :: rest) = c :: unescapedChars rest := by
  rw [unescapedChars] <;> exact fun _ hc => absurd hc h

theorem unescapedChars_append (h : '&' ∉ cs) (rest : List Char) :
    unescapedChars (cs ++ rest) = cs ++ unescapedChars rest := by
  induction cs with
  | nil => rfl
  | cons c cs ih =>
    rw [List.mem_cons, not_or] at h
    rw [List.cons_append, unescapedChars_cons (Ne.symm h.1), ih h.2, List.cons_append]

theorem unescapedChars_escapedChar (c : Char) (rest : List Char) :
    unescapedChars (escapedChar c ++ rest) = c :: unescapedChars rest := by
  cases h : entity? c with
  | none =>
    have hc : c ≠ '&' := fun hc => entity?_eq_none h (hc ▸ List.mem_cons_self)
    rw [escapedChar_of_none h, List.singleton_append, unescapedChars_cons hc]
  | some e =>
    rw [escapedChar_of_some h]
    unfold entity? at h
    split at h <;> cases h <;> rfl

theorem unescapedChars_escape (cs rest : List Char) :
    unescapedChars (cs.flatMap escapedChar ++ rest) = cs ++ unescapedChars rest := by
  induction cs with
  | nil => rfl
  | cons c cs ih => rw [List.flatMap_cons, List.append_assoc, unescapedChars_escapedChar, ih, List.cons_append]

/-- Pieces are unescaped one by one, whatever follows them. -/
theorem unescapedChars_html (h : Clean ps) (rest : List Char) :
    unescapedChars ((html true "" ps).toList ++ rest) = (html false "" ps).toList ++ unescapedChars rest := by
  fun_induction Clean ps with
  | case1 => rfl
  | case2 text ps ih =>
    simp only [html_cons, Piece.html, String.toList_append, List.append_assoc]
    rw [unescapedChars_append h.1, ih h.2]
  | case3 text ps ih =>
    simp only [html_cons, Piece.html, escape, String.toList_append, String.toList_ofList, List.append_assoc, ite_true,
      Bool.false_eq_true, ite_false]
    rw [unescapedChars_escape, ih h]
  | case4 ps ih =>
    simp only [html_cons, Piece.html, String.empty_append]
    exact ih h

end Html

/-- In every tree, parsed or grown, unescaping the escaped HTML gives the HTML that is not escaped. Both are written
    from the pieces of the forest that is read from the tree, and only in the values among them can they differ. -/
theorem Tree.unescape_html (t : Tree) : Html.unescape (t.html true) = t.html false ∧
    ∃ f : Forest Node, t.Reads f ∧ ∀ escaped, t.html escaped = Html.html escaped "" (Html.below f.pieces) := by
  obtain ⟨f, hf⟩ := exists_reads t
  have hclean : Html.Clean (Html.below f.pieces) := Html.clean_below Forest.clean_pieces
  have hchars := Html.unescapedChars_html hclean []
  refine ⟨?_, f, hf, hf.html_pieces⟩
  rw [List.append_nil, Html.unescapedChars, List.append_nil] at hchars
  rw [hf.html_pieces, hf.html_pieces, Html.unescape, hchars, String.ofList_toList]

end FormDirectives
