import FormDirectives.Proofs.Token.Printed

/-! Documents as they are written, one directive a line. Reading what was written gives it back, and whatever is read
    can be written: a source and the document that is written for its directives are read alike. -/

namespace FormDirectives
open Text

/-- The directive and its properties can be written on a line. -/
def Token.Printable (t : Token) : Prop := IsWordRun t.directive.toList ∧ t.props.Printable

instance : DecidablePred Token.Printable := fun t =>
  inferInstanceAs (Decidable (IsWordRun t.directive.toList ∧ t.props.Printable))

def Token.printed (t : Token) : String := directiveLine t.directive t.props

/-- The directives, each on a line of its own. -/
def printedDocument (ts : List Token) : String := "\n".intercalate (ts.map Token.printed)

/-- The directives with the lines counted anew. -/
def numbered (ts : List Token) : List Token := (ts.zipIdx 1).map fun t => { t.1 with line := t.2 }

/-! ### What is written -/

theorem sourceLines_printedDocument {ts : List Token} (hne : ts ≠ []) (h : ∀ t ∈ ts, t.Printable) :
    sourceLines (printedDocument ts) = ts.map fun t => t.printed.toList := by
  have hplain : ∀ l ∈ ts.map (fun t => t.printed.toList), '\n' ∉ l := by
    simp only [List.forall_mem_map]
    exact fun t ht => newline_notMem_directiveLine (h t ht).1 (h t ht).2
  rw [sourceLines, printedDocument, String.toList_intercalate, List.map_map]
  exact List.splitOn_intercalate '\n' hplain (by simpa using hne)

theorem numberedLines_printedDocument {ts : List Token} (hne : ts ≠ []) (h : ∀ t ∈ ts, t.Printable) :
    numberedLines (printedDocument ts) = (ts.zipIdx 1).map fun t => (.directive t.1.directive t.1.props, t.2) := by
  have hread : (ts.map fun t => t.printed.toList).map Line.read = ts.map fun t => .directive t.directive t.props := by
    rw [List.map_map]
    exact List.map_congr_left fun t ht => read_directiveLine (h t ht).1 (h t ht).2
  rw [numberedLines, ← sourceLines, sourceLines_printedDocument hne h, hread, List.zipIdx_map]
  rfl

/-- A document that was written is read as what was written, line by line. -/
theorem tokenize_printedDocument {ts : List Token} (h : ∀ t ∈ ts, t.Printable) :
    tokenize (printedDocument ts) = numbered ts ∧ lineDiagnostics (printedDocument ts) = [] := by
  rcases ts with _ | ⟨t, ts⟩
  · exact ⟨rfl, rfl⟩
  · rw [tokenize, lineDiagnostics, numberedLines_printedDocument (List.cons_ne_nil t ts) h, List.filterMap_map,
      List.filterMap_map]
    refine ⟨?_, List.filterMap_eq_nil_iff.mpr fun _ _ => rfl⟩
    exact congrFun List.filterMap_eq_map _

/-! ### What is read -/

namespace Props

theorem value?_eq_some {cs value : List Char} {rest : { rest : List Char // rest.length < cs.length }}
    (h : value? cs = some (value, rest)) : '"' ∉ value ∧ cs = value ++ '"' :: rest.1 := by
  unfold value? at h
  split at h
  · cases h
  · next c rest hquote =>
    cases h
    -- What is not taken begins with the first quote.
    have hfirst := List.head?_dropWhile_not (· ≠ '"') cs
    rw [hquote] at hfirst
    obtain rfl : c = '"' := by simpa using hfirst
    refine ⟨fun hmem => ?_, ?_⟩
    · simpa using List.mem_takeWhile_imp hmem
    · exact hquote ▸ List.takeWhile_append_dropWhile.symm

theorem pair?_eq_some {cs : List Char} {p : Pair} {after : { rest : List Char // rest.length < cs.length }}
    (h : pair? cs = some (p, after)) : IsWordRun p.1 ∧ '"' ∉ p.2 ∧ cs = pairChars p ++ after.1 := by
  unfold pair? at h
  by_cases hkey : cs.takeWhile isWord = []
  · simp [hkey] at h
  · simp only [if_neg hkey] at h
    split at h
    · next body hbody =>
      obtain ⟨⟨value, rest⟩, hvalue, hpair⟩ := Option.map_eq_some_iff.mp h
      cases hpair
      obtain ⟨hquote, hbody'⟩ := value?_eq_some hvalue
      have hcs : cs = cs.takeWhile isWord ++ cs.dropWhile isWord := List.takeWhile_append_dropWhile.symm
      rw [hbody, hbody'] at hcs
      refine ⟨⟨hkey, fun c hc => List.mem_takeWhile_imp hc⟩, hquote, hcs.trans ?_⟩
      simp [pairChars]
    · cases h

/-- A pair that is found stands in the text as it would be written. -/
theorem mem_pairs {p : Pair} (cs : List Char) : p ∈ pairs cs → IsWordRun p.1 ∧ '"' ∉ p.2 ∧ pairChars p <:+: cs := by
  fun_induction pairs cs with
  | case1 => exact fun h => absurd h List.not_mem_nil
  | case2 c rest q after hshorter hpair ih =>
    obtain ⟨hkey, hvalue, hcs⟩ := pair?_eq_some hpair
    intro h
    rcases List.mem_cons.mp h with rfl | h
    · exact ⟨hkey, hvalue, [], after, hcs.symm⟩
    · obtain ⟨hkey, hvalue, hwithin⟩ := ih h
      exact ⟨hkey, hvalue, hwithin.trans ⟨pairChars q, [], by rw [hcs, List.append_nil]⟩⟩
  | case3 c rest hnone ih =>
    intro h
    obtain ⟨hkey, hvalue, hwithin⟩ := ih h
    exact ⟨hkey, hvalue, hwithin.trans (List.suffix_cons c rest).isInfix⟩

/-- What is found on a line can be written on one. -/
theorem printable_read {cs : List Char} (hcs : '\n' ∉ cs) : (ofPairs (pairs cs)).Printable := by
  intro e he
  obtain ⟨p, hp, rfl⟩ := List.mem_map.mp (OrderedMap.mem_ofList he)
  obtain ⟨hkey, hvalue, hwithin⟩ := mem_pairs cs hp
  rw [String.toList_ofList, String.toList_ofList]
  refine ⟨hkey, fun c hc => ⟨fun hquote => hvalue (hquote ▸ hc), fun hend => hcs (hwithin.subset ?_)⟩⟩
  rw [← hend]
  simp [pairChars, hc]

end Props

/-- A directive that is read can be written. -/
theorem printable_of_read {cs : List Char} {name : String} {p : Props} (h : Line.read cs = .directive name p)
    (hcs : '\n' ∉ cs) : IsWordRun name.toList ∧ p.Printable := by
  have hstrip : '\n' ∉ strip cs := fun hmem => hcs <| by
    obtain ⟨before, after, -, hline⟩ := exists_strip cs
    rw [hline]
    exact List.mem_append_left after (List.mem_append_right before hmem)
  rcases Line.read_cases cs with ⟨-, hread⟩ | ⟨-, hread | ⟨rest, hmarked, hname, hread⟩⟩
  · cases h.symm.trans hread
  · cases h.symm.trans hread
  · cases h.symm.trans hread
    rw [hmarked] at hstrip
    refine ⟨?_, Props.printable_read fun hmem => hstrip ?_⟩
    · rw [String.toList_ofList]
      exact ⟨hname, fun c hc => List.mem_takeWhile_imp hc⟩
    · exact List.mem_cons_of_mem '@' ((List.dropWhile_sublist isWord).subset hmem)

theorem printable_of_mem_tokenize {source : String} {t : Token} (ht : t ∈ tokenize source) : t.Printable := by
  obtain ⟨i, cs, hcs, hread⟩ := exists_line_of_mem_readings ht
  cases hline : Line.read cs with
  | directive name p =>
    rw [hline] at hread
    cases hread
    exact printable_of_read hline fun hmem => (of_mem_splitOn (List.mem_of_getElem? hcs) hmem).1 rfl
  | _ =>
    rw [hline] at hread
    cases hread

/-- Reading undoes writing, and writing what was read leaves of a source its directives, on the lines of their own. -/
theorem printing_undone :
    (∀ ts : List Token, (∀ t ∈ ts, t.Printable) →
      tokenize (printedDocument ts) = numbered ts ∧ lineDiagnostics (printedDocument ts) = []) ∧
    ∀ source : String, (∀ t ∈ tokenize source, t.Printable) ∧
      tokenize (printedDocument (tokenize source)) = numbered (tokenize source) ∧
      lineDiagnostics (printedDocument (tokenize source)) = [] :=
  ⟨fun _ => tokenize_printedDocument, fun _ =>
    ⟨fun _ => printable_of_mem_tokenize, tokenize_printedDocument fun _ => printable_of_mem_tokenize⟩⟩

/-- A value that looks like a comment and like another pair, behind a carriage return. -/
theorem hostile_value_printed :
    tokenize (printedDocument [⟨"input", .ofList [("label", "\r@// name=x "), ("name", "")], 0⟩, ⟨"endform", ∅, 0⟩]) =
      [⟨"input", .ofList [("label", "\r@// name=x "), ("name", "")], 1⟩, ⟨"endform", ∅, 2⟩] :=
  (printing_undone.1 _ (by decide)).1

end FormDirectives
