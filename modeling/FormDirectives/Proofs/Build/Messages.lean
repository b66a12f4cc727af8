import FormDirectives.Proofs.Html.Unescaped
import FormDirectives.Proofs.Json.RoundTrip
import FormDirectives.Proofs.Text.Quoted
import FormDirectives.Proofs.Token.Printing

/-! Diagnostics as they are written. Text of the source stands in a message only in quotes, and the names in it are
    those of directives, which are words; so a diagnostic is written in printable characters, whatever the source
    holds. Each bears the number of a line of the source, and what is quoted in it can be read off its message. -/

namespace FormDirectives
open Text

/-! ### Messages -/

/-- The issue can be found on a line: a text that is refused is that of the line, and all names are words. -/
def Issue.TellsOf (line : List Char) : Issue → Prop
  | unparsableLine text => text = String.ofList (strip line)
  | closesRoot name | closesNothing name | unclosedContainer name | detachedDirective name
  | unrecognizedDirective name | unescapedContent name _ => IsWordRun name.toList
  | mismatchedClose name kind _ => IsWordRun name.toList ∧ IsWordRun kind.toList
  | custom .. => False

theorem allPrintable_of_isWordRun {name : String} (h : IsWordRun name.toList) : AllPrintable name := fun c hc =>
  isPrintable_of_isWord (h.2 c hc)

theorem allPrintable_toString_int (n : Int) : AllPrintable (toString n) := by
  have hdigits : ∀ c ∈ Nat.toDigits 10 n.natAbs, isPrintable c = true := fun c hc => by
    have hdigit : c.isDigit = true := Nat.isDigit_of_mem_toDigits (by decide) (by decide) hc
    exact isPrintable_of_isWord (by simp [isWord, Char.isAlphanum, hdigit])
  rw [AllPrintable, Json.toList_toString_int]
  split
  · exact List.forall_mem_cons.mpr ⟨isPrintable_of_ascii (by decide) (by decide), hdigits⟩
  · exact hdigits

/-- A name ends where the blank behind it stands. -/
theorem Text.IsWordRun.cancel {cs ds rest rest' : List Char} (hcs : IsWordRun cs) (hds : IsWordRun ds)
    (h : cs ++ ' ' :: rest = ds ++ ' ' :: rest') : cs = ds ∧ rest = rest' := by
  have hname {cs : List Char} (hcs : IsWordRun cs) (rest : List Char) :
      (cs ++ ' ' :: rest).takeWhile isWord = cs := by
    rw [List.takeWhile_append_of_pos hcs.2, List.takeWhile_cons_of_neg (by decide), List.append_nil]
  obtain rfl : cs = ds := by rw [← hname hcs rest, h, hname hds]
  exact ⟨rfl, (List.cons.inj (List.append_cancel_left h)).2⟩

namespace Issue
variable {i : Issue} {line : List Char}

theorem allPrintable_message (h : i.TellsOf line) : AllPrintable i.message := by
  have hmarked {name : String} (h : IsWordRun name.toList) : AllPrintable ("@" ++ name) :=
    (allPrintable_of_ascii (by decide)).append (allPrintable_of_isWordRun h)
  cases i with
  | unparsableLine text => exact (allPrintable_of_ascii (by decide +kernel)).append (allPrintable_quoted text)
  | closesRoot name | closesNothing name | unclosedContainer name | detachedDirective name
  | unrecognizedDirective name => exact (hmarked h).append (allPrintable_of_ascii (by decide +kernel))
  | mismatchedClose name kind openedOn =>
    have hcloses : AllPrintable " closes @" := allPrintable_of_ascii (by decide +kernel)
    have hopened : AllPrintable " opened on line " := allPrintable_of_ascii (by decide +kernel)
    have hkind := ((hmarked h.1).append hcloses).append (allPrintable_of_isWordRun h.2)
    exact (hkind.append hopened).append (allPrintable_toString_int openedOn)
  | unescapedContent kind value =>
    have hemits : AllPrintable " emits " := allPrintable_of_ascii (by decide)
    have hescaping : AllPrintable " without HTML escaping" := allPrintable_of_ascii (by decide +kernel)
    exact (((hmarked h).append hemits).append (allPrintable_quoted value)).append hescaping
  | custom code text severity => exact h.elim

theorem allPrintable_code (h : i.TellsOf line) : AllPrintable i.code := by
  cases i with
  | custom code text severity => exact h.elim
  | _ =>
    simp only [code]
    exact allPrintable_of_ascii (by decide +kernel)

theorem message_unparsableLine (text : String) :
    (unparsableLine text).message = "not a directive line: " ++ quoted text := rfl

theorem toList_message_unescapedContent (kind value : String) : (unescapedContent kind value).message.toList =
    '@' :: (kind.toList ++ ' ' :: ("emits ".toList ++ ((quoted value).toList ++ " without HTML escaping".toList))) := by
  have hmessage : (unescapedContent kind value).message =
      "@" ++ kind ++ " emits " ++ quoted value ++ " without HTML escaping" := rfl
  rw [hmessage]
  simp only [String.toList_append, List.append_assoc]
  rfl

theorem exists_of_code_unparsable (h : i.TellsOf line) (hcode : i.code = "UnparsableLine") :
    ∃ text, i = unparsableLine text := by
  cases i with
  | unparsableLine text => exact ⟨text, rfl⟩
  | custom code text severity => exact h.elim
  | _ => exact absurd hcode (by simp only [code]; decide +kernel)

theorem isUnescaped_of_code (h : i.TellsOf line) (hcode : i.code = "UnescapedContent") : i.isUnescaped = true := by
  cases i with
  | unescapedContent kind value => rfl
  | custom code text severity => exact h.elim
  | _ => exact absurd hcode (by simp only [code]; decide +kernel)

theorem text_of_message {text text' : String} (h : (unparsableLine text).message = (unparsableLine text').message) :
    text = text' := by
  have hlist := congrArg String.toList h
  rw [message_unparsableLine, message_unparsableLine, String.toList_append, String.toList_append] at hlist
  exact quoted_injective (String.toList_inj.mp (List.append_cancel_left hlist))

theorem content_of_message {kind kind' value value' : String} (hkind : IsWordRun kind.toList)
    (hkind' : IsWordRun kind'.toList)
    (h : (unescapedContent kind value).message = (unescapedContent kind' value').message) :
    kind = kind' ∧ value = value' := by
  have hlist := congrArg String.toList h
  rw [toList_message_unescapedContent, toList_message_unescapedContent] at hlist
  obtain ⟨hname, hrest⟩ := hkind.cancel hkind' (List.cons.inj hlist).2
  have hvalue := List.append_cancel_right (List.append_cancel_left hrest)
  exact ⟨String.toList_inj.mp hname, quoted_injective (String.toList_inj.mp hvalue)⟩

end Issue

theorem Diagnostic.allPrintable_format {d : Diagnostic} {line : List Char} (h : d.issue.TellsOf line) :
    AllPrintable d.format := by
  have hplace : AllPrintable d.place := by
    unfold place
    split
    · exact allPrintable_of_ascii (by decide +kernel)
    · split
      · exact allPrintable_of_ascii (by decide +kernel)
      · exact AllPrintable.append (allPrintable_of_ascii (by decide +kernel)) (allPrintable_toString_int _)
  have hopening : AllPrintable ": [" := allPrintable_of_ascii (by decide)
  have hclosing : AllPrintable "] " := allPrintable_of_ascii (by decide)
  exact (((hplace.append hopening).append (Issue.allPrintable_code h)).append hclosing).append
    (Issue.allPrintable_message h)

/-! ### Lines -/

/-- The line of a source with this number; they are counted from one. -/
def LineAt (source : String) (number : Int) (line : List Char) : Prop :=
  ∃ i : Nat, number = ((1 + i : Nat) : Int) ∧ (sourceLines source)[i]? = some line

/-- The diagnostic is on this line of the source. -/
def Diagnostic.IsOn (d : Diagnostic) (source : String) (line : List Char) : Prop :=
  ∃ number, d.line = some number ∧ LineAt source number line

/-- The diagnostic is on a line of the source on which its issue can be found. -/
def Diagnostic.Sited (source : String) (d : Diagnostic) : Prop := ∃ line, d.IsOn source line ∧ d.issue.TellsOf line

/-- The directive stands on a line of the source, and its name is a word. -/
structure Token.Sited (source : String) (t : Token) : Prop where
  line : ∃ line, LineAt source t.line line
  name : IsWordRun t.directive.toList

section
variable {source : String} {line : List Char} {d : Diagnostic} {t : Token}

theorem Diagnostic.IsOn.bounds (h : d.IsOn source line) :
    ∃ n : Nat, d.line = some (n : Int) ∧ 1 ≤ n ∧ n ≤ lineCount source := by
  obtain ⟨number, hnumber, i, rfl, hline⟩ := h
  obtain ⟨hlt, -⟩ := List.getElem?_eq_some_iff.mp hline
  exact ⟨1 + i, hnumber, Nat.le_add_right 1 i, (Nat.add_comm 1 i).symm ▸ hlt⟩

theorem sited_of_mem_tokenize (h : t ∈ tokenize source) : t.Sited source := by
  obtain ⟨i, line, hline, hread⟩ := exists_line_of_mem_readings h
  exact ⟨⟨line, i, Option.some.inj (numbered_tokens.number hread), hline⟩, (printable_of_mem_tokenize h).1⟩

theorem sited_of_mem_lineDiagnostics (h : d ∈ lineDiagnostics source) : d.Sited source := by
  obtain ⟨i, line, hline, hread⟩ := exists_line_of_mem_readings h
  refine ⟨line, ⟨_, numbered_diagnostics.number hread, i, rfl, hline⟩, ?_⟩
  rcases Line.read_cases line with ⟨-, hskipped⟩ | ⟨-, hrefused | ⟨_, -, -, hnamed⟩⟩
  · rw [hskipped] at hread
    cases hread
  · rw [hrefused] at hread
    cases hread
    rfl
  · rw [hnamed] at hread
    cases hread

end

/-! ### Directives -/

/-- The directives that a fate is of. -/
def Fate.tokens : Fate → List Token
  | skipped | unparsable .. => []
  | attached t | detached t | unmatched t _ => [t]
  | closing t opener => [t, opener]

def Scope.openers (s : Scope) : List Token := s.getD []

namespace Scope
variable {P : Token → Prop} {s : Scope} {t : Token}

/-- A fate is of the directive that is read, and perhaps of one that is open. -/
theorem forall_tokens_fate (hs : ∀ u ∈ s.openers, P u) (ht : P t) : ∀ u ∈ (s.fate t).tokens, P u := by
  unfold fate
  split
  · split
    · exact List.forall_mem_cons.mpr ⟨ht, List.forall_mem_singleton.mpr (hs _ List.mem_cons_self)⟩
    · exact List.forall_mem_singleton.mpr ht
    · exact List.forall_mem_singleton.mpr ht
  · split
    · exact List.forall_mem_singleton.mpr ht
    · exact List.forall_mem_singleton.mpr ht

theorem forall_openers_after (hs : ∀ u ∈ s.openers, P u) (ht : P t) : ∀ u ∈ (s.after t).openers, P u := by
  unfold after
  split
  · cases s with
    | none => exact hs
    | some openers => exact List.forall_mem_cons.mpr ⟨ht, hs⟩
  · rcases s with _ | _ | ⟨opener, outer⟩
    · exact hs
    · exact hs
    · exact fun u hu => hs u (List.mem_cons_of_mem opener hu)
  · exact hs

theorem forall_tokens_fates : ∀ {ts : List Token} {s : Scope}, (∀ u ∈ s.openers, P u) → (∀ t ∈ ts, P t) →
    ∀ f ∈ s.fates ts, ∀ u ∈ f.tokens, P u
  | [], _, _, _ => nofun
  | t :: ts, s, hs, hts => by
    obtain ⟨ht, hts⟩ := List.forall_mem_cons.mp hts
    exact List.forall_mem_cons.mpr
      ⟨forall_tokens_fate hs ht, forall_tokens_fates (forall_openers_after hs ht) hts⟩

theorem forall_openers_foldl : ∀ {ts : List Token} {s : Scope}, (∀ u ∈ s.openers, P u) → (∀ t ∈ ts, P t) →
    ∀ u ∈ (ts.foldl after s).openers, P u
  | [], _, hs, _ => hs
  | t :: ts, s, hs, hts => by
    obtain ⟨ht, hts⟩ := List.forall_mem_cons.mp hts
    rw [List.foldl_cons]
    exact forall_openers_foldl (forall_openers_after hs ht) hts

end Scope

section
variable {source : String} {d : Diagnostic} {t : Token}

theorem Token.Sited.report (h : t.Sited source) {issue : Issue} (hissue : ∀ line, issue.TellsOf line) :
    Diagnostic.Sited source { issue, line := t.line } := by
  obtain ⟨line, hline⟩ := h.line
  exact ⟨line, ⟨t.line, rfl, hline⟩, hissue line⟩

theorem Fate.sited_of_mem_buildReports {f : Fate} (h : ∀ t ∈ f.tokens, t.Sited source) (hd : d ∈ f.buildReports) :
    d.Sited source := by
  cases f with
  | skipped | unparsable text number => cases hd
  | attached t =>
    have ht := h t List.mem_cons_self
    rw [buildReports] at hd
    split at hd
    · exact List.mem_singleton.mp hd ▸ ht.report fun _ => ht.name
    · cases hd
  | detached t =>
    have ht := h t List.mem_cons_self
    exact List.mem_singleton.mp hd ▸ ht.report fun _ => ht.name
  | closing t opener =>
    have ht := h t List.mem_cons_self
    have hopener := h opener (List.mem_cons_of_mem t List.mem_cons_self)
    rw [buildReports] at hd
    split at hd
    · cases hd
    · exact List.mem_singleton.mp hd ▸ ht.report fun _ => ⟨ht.name, hopener.name⟩
  | unmatched t rootOpen =>
    have ht := h t List.mem_cons_self
    cases rootOpen with
    | true => exact List.mem_singleton.mp hd ▸ ht.report fun _ => ht.name
    | false => exact List.mem_singleton.mp hd ▸ ht.report fun _ => ht.name

theorem Scope.sited_of_mem_unclosed {s : Scope} (h : ∀ t ∈ s.openers, t.Sited source) (hd : d ∈ s.unclosed) :
    d.Sited source := by
  cases s with
  | none => cases hd
  | some openers =>
    obtain ⟨t, ht, rfl⟩ := List.mem_map.mp hd
    have ht := h t (List.mem_reverse.mp ht)
    exact ht.report fun _ => ht.name

/-! ### Compilation -/

variable {strict : Bool} {p : Parsed} {config : Config} {c : Compiled}

theorem sited_of_mem_parsed (h : parse strict (tokenize source) = .ok p) (hd : d ∈ p.diagnostics) :
    d.Sited source := by
  have htokens : ∀ t ∈ tokenize source, t.Sited source := fun t => sited_of_mem_tokenize
  have hstart : ∀ t ∈ Scope.start.openers, t.Sited source := fun _ ht => absurd ht List.not_mem_nil
  obtain ⟨l, hl, -, -, hdiagnostics⟩ := parse_false (tokenize source)
  cases (parse_false_of_parse h).symm.trans hl
  rw [hdiagnostics, List.mem_append, List.mem_flatMap] at hd
  rcases hd with ⟨f, hf, hd⟩ | hd
  · exact f.sited_of_mem_buildReports (Scope.forall_tokens_fates hstart htokens f hf) hd
  · exact Scope.sited_of_mem_unclosed (Scope.forall_openers_foldl hstart htokens) hd

/-- A report of the rendering is on a node of a directive. -/
theorem exists_node_of_mem_renderDiagnostics (h : parse strict (tokenize source) = .ok p) {escaped : Bool}
    (hd : d ∈ p.tree.renderDiagnostics escaped) : (∃ n ∈ p.tree.nodes, n.Reports d) ∧ d.Sited source := by
  cases escaped with
  | true => cases hd
  | false =>
    obtain ⟨n, hn, hunescaped⟩ := List.mem_filterMap.mp hd
    have hreports := Node.reports_of_unescaped? (written_of_mem_nodes h hn) hunescaped
    obtain ⟨v, hv, -, hissue⟩ := hreports.issue
    refine ⟨⟨n, hn, hreports⟩, ?_⟩
    rw [nodes_of_parse h] at hn
    rcases List.mem_cons.mp hn with rfl | hn
    · -- The root shows no value of its own.
      simp [Html.pieces] at hv
    · obtain ⟨t, ht, rfl⟩ := List.mem_map.mp hn
      obtain ⟨hrooted, hcloser⟩ := List.mem_filter.mp ht
      have ht := sited_of_mem_tokenize ((rooted_sublist 0 _).subset hrooted)
      obtain ⟨issue, number⟩ := d
      cases hreports.line
      cases hissue
      refine ht.report fun _ => ?_
      have hkind : t.node.kind = t.directive := Token.kind_node fun c hc => by simp [Token.isCloser, hc] at hcloser
      exact hkind.symm ▸ ht.name

theorem sited_of_mem_diagnostics (h : compile config source = .ok c) (hd : d ∈ c.diagnostics) : d.Sited source := by
  obtain ⟨p, hp, rfl⟩ := exists_parsed_of_compile h
  rcases List.mem_append.mp hd with hd | hd
  · rcases List.mem_append.mp hd with hd | hd
    · exact sited_of_mem_lineDiagnostics hd
    · exact sited_of_mem_parsed hp hd
  · exact (exists_node_of_mem_renderDiagnostics hp hd).2

theorem exists_node_of_isUnescaped (h : compile config source = .ok c) (hd : d ∈ c.diagnostics)
    (hissue : d.issue.isUnescaped = true) : ∃ n ∈ c.tree.nodes, n.Reports d := by
  obtain ⟨p, hp, rfl⟩ := exists_parsed_of_compile h
  rcases List.mem_append.mp hd with hd | hd
  · rcases List.mem_append.mp hd with hd | hd
    · rw [not_isUnescaped_of_mem_lineDiagnostics hd] at hissue
      cases hissue
    · rw [not_isUnescaped_of_mem_parsed hp hd] at hissue
      cases hissue
  · exact (exists_node_of_mem_renderDiagnostics hp hd).1

/-! ### Equal messages -/

variable {source' : String} {d' : Diagnostic} {config' : Config} {c' : Compiled}

theorem strip_eq_of_message (hd : d.Sited source) (hd' : d'.Sited source') (hcode : d.issue.code = "UnparsableLine")
    (hcode' : d'.issue.code = "UnparsableLine") (h : d.issue.message = d'.issue.message) :
    ∃ line line', d.IsOn source line ∧ d'.IsOn source' line' ∧ strip line = strip line' := by
  obtain ⟨line, hline, htells⟩ := hd
  obtain ⟨line', hline', htells'⟩ := hd'
  obtain ⟨text, hissue⟩ := Issue.exists_of_code_unparsable htells hcode
  obtain ⟨text', hissue'⟩ := Issue.exists_of_code_unparsable htells' hcode'
  rw [hissue] at htells h
  rw [hissue'] at htells' h
  refine ⟨line, line', hline, hline', String.ofList_injective ?_⟩
  calc String.ofList (strip line)
    _ = text := htells.symm
    _ = text' := Issue.text_of_message h
    _ = String.ofList (strip line') := htells'

theorem content_eq_of_message (hc : compile config source = .ok c) (hd : d ∈ c.diagnostics)
    (hc' : compile config' source' = .ok c') (hd' : d' ∈ c'.diagnostics) (hcode : d.issue.code = "UnescapedContent")
    (hcode' : d'.issue.code = "UnescapedContent") (h : d.issue.message = d'.issue.message) :
    ∃ n ∈ c.tree.nodes, ∃ n' ∈ c'.tree.nodes, n.Reports d ∧ n'.Reports d' ∧ n.kind = n'.kind ∧ d.issue = d'.issue := by
  obtain ⟨line, -, htells⟩ := sited_of_mem_diagnostics hc hd
  obtain ⟨line', -, htells'⟩ := sited_of_mem_diagnostics hc' hd'
  obtain ⟨n, hn, hreports⟩ := exists_node_of_isUnescaped hc hd (Issue.isUnescaped_of_code htells hcode)
  obtain ⟨n', hn', hreports'⟩ := exists_node_of_isUnescaped hc' hd' (Issue.isUnescaped_of_code htells' hcode')
  refine ⟨n, hn, n', hn', hreports, hreports', ?_⟩
  obtain ⟨value, -, -, hissue⟩ := hreports.issue
  obtain ⟨value', -, -, hissue'⟩ := hreports'.issue
  rw [hissue] at htells h ⊢
  rw [hissue'] at htells' h ⊢
  obtain ⟨hkind, hvalue⟩ := Issue.content_of_message htells htells' h
  exact ⟨hkind, by rw [hkind, hvalue]⟩

end

end FormDirectives
