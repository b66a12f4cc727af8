import FormDirectives.Proofs.Text.Blank
import FormDirectives.Proofs.Token.Lines
import Mathlib.Data.List.Forall2

/-! Edits of a source. A line gives the same directive, or the same report, wherever it stands and whatever blanks are
    put around it; a blank line or a comment gives nothing. So putting sources one below the other, padding their lines
    and inserting lines without a directive changes no more than the numbers of the lines. -/

namespace FormDirectives
open Text

/-- The line with blanks around it, none of which ends it. -/
def Padded (line padded : List Char) : Prop :=
  ∃ before after, (∀ c ∈ before ++ after, isBlank c = true ∧ c ≠ '\n') ∧ padded = before ++ line ++ after

/-- Nothing but blanks, or a comment behind blanks. -/
def BlankOrComment (line : List Char) : Prop :=
  (∀ c ∈ line, isBlank c = true) ∨
    ∃ before rest, (∀ c ∈ before, isBlank c = true) ∧ line = before ++ Line.commentMarker ++ rest

/-- The source with a carriage return before each line feed. -/
def withReturns (source : String) : String :=
  String.ofList (source.toList.flatMap fun c => if c = '\n' then ['\r', '\n'] else [c])

/-- The same report further down. -/
def Diagnostic.down (lines : Nat) (d : Diagnostic) : Diagnostic := d.renumber (· + (lines : Int))

/-- The number of a line when another line is inserted behind the first `i`. -/
def pushed (i : Nat) (number : Int) : Int := if number ≤ i then number else number + 1

/-- What a line gives: nothing, a directive or a report. -/
inductive Yields (line : List Char) (number : Int) : List Token → List Diagnostic → Prop
  | nothing (h : BlankOrComment line) : Yields line number [] []
  | directive (h : ¬ BlankOrComment line) (name : String) (props : Props) :
    Yields line number [{ directive := name, props, line := number }] []
  | report (h : ¬ BlankOrComment line) :
    Yields line number [] [{ issue := .unparsableLine (String.ofList (strip line)), line := number }]

theorem Line.read_padded {line padded : List Char} (h : Padded line padded) : Line.read padded = Line.read line := by
  obtain ⟨before, after, hblank, rfl⟩ := h
  have hbefore : ∀ c ∈ before, isBlank c = true := fun c hc => (hblank c (List.mem_append_left after hc)).1
  have hafter : ∀ c ∈ after, isBlank c = true := fun c hc => (hblank c (List.mem_append_right before hc)).1
  rw [Line.read, strip_padded hbefore hafter, Line.read]

theorem blankOrComment_iff {line : List Char} :
    BlankOrComment line ↔ strip line = [] ∨ Line.commentMarker <+: strip line := by
  constructor
  · rintro (hblank | ⟨before, rest, hblank, rfl⟩)
    · exact Or.inl (strip_of_blank hblank)
    · have hnone : ∀ c ∈ ([] : List Char), isBlank c = true := nofun
      have hstrip := strip_padded hblank hnone (Line.commentMarker ++ rest)
      rw [List.append_nil, ← List.append_assoc] at hstrip
      rw [hstrip]
      exact Or.inr (prefix_strip (by simp [Line.commentMarker, isBlank]) (by simp [Line.commentMarker]) rest)
  · obtain ⟨before, after, hblank, hline⟩ := exists_strip line
    rintro (hnil | ⟨rest, hrest⟩)
    · rw [hnil, List.append_nil] at hline
      exact Or.inl (hline ▸ hblank)
    · refine Or.inr ⟨before, rest ++ after, fun c hc => hblank c (List.mem_append_left after hc), ?_⟩
      rw [← List.append_assoc, List.append_assoc before, hrest, ← hline]

theorem Line.read_of_blankOrComment {line : List Char} (h : BlankOrComment line) : read line = .skipped := by
  rcases read_cases line with ⟨-, hread⟩ | ⟨hnot, -⟩
  · exact hread
  · exact absurd (blankOrComment_iff.mp h) hnot

/-! ### Lines among others -/

section
variable {α : Type} {g : Nat → Line → Option α} {number : α → Option Int} {renumber : (Int → Int) → α → α}
  {ls ms : List (List Char)} {line : List Char} {i : Nat}

theorem readings_padded (h : List.Forall₂ Padded ls ms) (g : Nat → Line → Option α) (n : Nat) :
    readings g n ms = readings g n ls := by
  have hread : ms.map Line.read = ls.map Line.read := by
    induction h with
    | nil => rfl
    | cons hpadded _ ih => rw [List.map_cons, List.map_cons, Line.read_padded hpadded, ih]
  rw [readings, hread, readings]

namespace Numbered
variable (h : Numbered g number renumber)
include h

/-- A line that gives nothing only pushes down what stands behind it. -/
theorem readings_insert (hline : BlankOrComment line) (ls ms : List (List Char)) :
    readings g 1 (ls ++ line :: ms) = (readings g 1 (ls ++ ms)).map (renumber (pushed ls.length)) := by
  have hupper : readings g 1 ls = (readings g 1 ls).map (renumber (pushed ls.length)) :=
    h.readings_renumber fun j hj => by
      rw [pushed, if_pos (by omega)]
  have hlower : readings g (1 + ls.length + 1) ms = (readings g (1 + ls.length) ms).map (renumber (pushed ls.length)) :=
    h.readings_renumber fun j hj => by
      rw [pushed, if_neg (by omega)]
      omega
  rw [readings_append, readings_append, readings_cons, Line.read_of_blankOrComment hline, h.skipped, List.map_append,
    ← hupper, ← hlower]
  rfl

theorem pairwise_readings (n : Nat) (ls : List (List Char)) :
    (readings g n ls).Pairwise fun a b => ∃ k ∈ number a, ∃ l ∈ number b, k < l := by
  have hnumbers : ((ls.map Line.read).zipIdx n).Pairwise fun l l' => l.2 < l'.2 := by
    rw [← List.pairwise_map, List.zipIdx_map_snd]
    exact List.pairwise_lt_range'
  rw [readings, List.pairwise_filterMap]
  refine hnumbers.imp fun {l l'} hlt a ha b hb => ?_
  exact ⟨_, h.number ha, _, h.number hb, Int.ofNat_lt.mpr hlt⟩

/-- The entries with the number of a line are those of the line. -/
theorem readings_filter (hline : ls[i]? = some line) (n : Nat) :
    (readings g n ls).filter (fun a => number a = some ((n + i : Nat) : Int)) = (g (n + i) (Line.read line)).toList := by
  have hnumbered : ∀ (j : Nat) (l : Line × Nat), ((ls.map Line.read).zipIdx n)[j]? = some l →
      ∀ a ∈ (g l.2 l.1).toList, number a = some ((n + j : Nat) : Int) := fun j l hl a ha => by
    rw [List.getElem?_zipIdx] at hl
    obtain ⟨r, -, rfl⟩ := Option.map_eq_some_iff.mp hl
    exact h.number (Option.mem_toList.mp ha)
  have hi : ((ls.map Line.read).zipIdx n)[i]? = some (Line.read line, n + i) := by
    rw [List.getElem?_zipIdx, List.getElem?_map, hline]
    rfl
  rw [readings, List.filterMap_eq_flatMap_toList]
  exact filter_flatMap_numbered hnumbered hi

/-- No entry comes from elsewhere. -/
theorem exists_of_mem_readings {a : α} {n : Nat} (ha : a ∈ readings g n ls) :
    ∃ i < ls.length, number a = some ((n + i : Nat) : Int) := by
  obtain ⟨i, line, hline, hread⟩ := exists_line_of_mem_readings ha
  obtain ⟨hlt, -⟩ := List.getElem?_eq_some_iff.mp hline
  exact ⟨i, hlt, h.number hread⟩

end Numbered
end

/-! ### Sources -/

theorem tokenize_eq_readings (source : String) : tokenize source = readings Line.token? 1 (sourceLines source) := rfl

theorem lineDiagnostics_eq_readings (source : String) :
    lineDiagnostics source = readings Line.diagnostic? 1 (sourceLines source) := rfl

theorem lineDiagnostics_append (a b : String) : lineDiagnostics (a ++ "\n" ++ b) =
    lineDiagnostics a ++ (lineDiagnostics b).map (Diagnostic.down (lineCount a)) :=
  numbered_diagnostics.readings_below a b

theorem forall₂_modifyHead {α : Type} {R : α → α → Prop} {as bs : List α} {f g : α → α} (h : List.Forall₂ R as bs)
    (hR : ∀ a b, R a b → R (f a) (g b)) : List.Forall₂ R (as.modifyHead f) (bs.modifyHead g) := by
  cases h with
  | nil => exact .nil
  | cons hfirst hrest => exact .cons (hR _ _ hfirst) hrest

/-- Each line but the last ends with a carriage return now. -/
theorem forall₂_splitOn_returns : ∀ cs : List Char,
    List.Forall₂ (fun line returned => returned = line ∨ returned = line ++ ['\r']) (cs.splitOn '\n')
      ((cs.flatMap fun c => if c = '\n' then ['\r', '\n'] else [c]).splitOn '\n')
  | [] => .cons (Or.inl rfl) .nil
  | c :: cs => by
    have ih := forall₂_splitOn_returns cs
    rw [List.flatMap_cons, List.splitOn_cons_eq_if_modifyHead]
    by_cases hc : c = '\n'
    · subst hc
      exact .cons (Or.inr rfl) ih
    · rw [if_neg hc, if_neg (by simpa using hc), List.singleton_append, List.splitOn_cons_eq_if_modifyHead,
        if_neg (by simpa using hc)]
      exact forall₂_modifyHead ih fun line returned h => h.imp (congrArg _) (congrArg _)

theorem sourceLines_withReturns (source : String) :
    List.Forall₂ Padded (sourceLines source) (sourceLines (withReturns source)) := by
  have hreturns := forall₂_splitOn_returns source.toList
  rw [sourceLines, sourceLines, withReturns, String.toList_ofList]
  refine hreturns.imp fun line returned h => ?_
  rcases h with rfl | rfl
  · exact ⟨[], [], fun c hc => absurd hc List.not_mem_nil, (List.append_nil _).symm⟩
  · exact ⟨[], ['\r'], by simp [isBlank], rfl⟩

section
variable {a b : String}

theorem tokenize_padded (h : List.Forall₂ Padded (sourceLines a) (sourceLines b)) :
    tokenize b = tokenize a ∧ lineDiagnostics b = lineDiagnostics a :=
  ⟨readings_padded h _ 1, readings_padded h _ 1⟩

theorem tokenize_insert {ls ms : List (List Char)} {line : List Char} (hline : BlankOrComment line)
    (ha : sourceLines a = ls ++ ms) (hb : sourceLines b = ls ++ line :: ms) :
    tokenize b = (tokenize a).map (.renumber (pushed ls.length)) ∧
      lineDiagnostics b = (lineDiagnostics a).map (.renumber (pushed ls.length)) := by
  simp only [tokenize_eq_readings, lineDiagnostics_eq_readings, ha, hb]
  exact ⟨numbered_tokens.readings_insert hline ls ms, numbered_diagnostics.readings_insert hline ls ms⟩

/-- A line that is neither blank nor a comment gives one directive or one report, and no other line bears on it. -/
theorem yields_line {i : Nat} {line : List Char} (hline : (sourceLines a)[i]? = some line) :
    Yields line (i + 1) ((tokenize a).filter (·.line = (i : Int) + 1))
      ((lineDiagnostics a).filter (·.line = some ((i : Int) + 1))) := by
  have htokens := numbered_tokens.readings_filter hline 1
  have hdiagnostics := numbered_diagnostics.readings_filter hline 1
  have hnumber : ((1 + i : Nat) : Int) = i + 1 := by omega
  simp only [Option.some.injEq, hnumber] at htokens hdiagnostics
  rw [tokenize_eq_readings, lineDiagnostics_eq_readings, htokens, hdiagnostics]
  rcases Line.read_cases line with ⟨hnone, hread⟩ | ⟨hsome, hread | ⟨rest, -, -, hread⟩⟩ <;> rw [hread]
  · exact .nothing (blankOrComment_iff.mpr hnone)
  · rw [← hnumber]
    exact .report fun h => hsome (blankOrComment_iff.mp h)
  · rw [← hnumber]
    exact .directive (fun h => hsome (blankOrComment_iff.mp h)) _ _

end

/-- A source is read line by line. One source below another is read as if it stood alone, further down; blanks around
    the lines, carriage returns among them, change nothing; a blank line or a comment only pushes down what stands
    behind it. Every other line gives one directive or one report, in the order of the lines. -/
theorem tokenized_line_by_line :
    (∀ a b : String,
      tokenize (a ++ "\n" ++ b) = tokenize a ++ (tokenize b).map (Token.down (lineCount a)) ∧
      lineDiagnostics (a ++ "\n" ++ b) =
        lineDiagnostics a ++ (lineDiagnostics b).map (Diagnostic.down (lineCount a))) ∧
    (∀ a b : String, List.Forall₂ Padded (sourceLines a) (sourceLines b) →
      tokenize b = tokenize a ∧ lineDiagnostics b = lineDiagnostics a) ∧
    (∀ a : String, tokenize (withReturns a) = tokenize a ∧ lineDiagnostics (withReturns a) = lineDiagnostics a) ∧
    (∀ (a b : String) (ls ms : List (List Char)) (line : List Char), BlankOrComment line →
      sourceLines a = ls ++ ms → sourceLines b = ls ++ line :: ms →
      tokenize b = (tokenize a).map (.renumber (pushed ls.length)) ∧
      lineDiagnostics b = (lineDiagnostics a).map (.renumber (pushed ls.length))) ∧
    ∀ a : String,
      (tokenize a).Pairwise (fun s t => s.line < t.line) ∧
      (lineDiagnostics a).Pairwise (fun d e => ∃ m ∈ d.line, ∃ n ∈ e.line, m < n) ∧
      (∀ t ∈ tokenize a, ∃ i < lineCount a, t.line = (i : Int) + 1) ∧
      (∀ d ∈ lineDiagnostics a, ∃ i < lineCount a, d.line = some ((i : Int) + 1)) ∧
      ∀ (i : Nat) (line : List Char), (sourceLines a)[i]? = some line →
        Yields line (i + 1) ((tokenize a).filter (·.line = (i : Int) + 1))
          ((lineDiagnostics a).filter (·.line = some ((i : Int) + 1))) := by
  refine ⟨fun a b => ⟨tokenize_append a b, lineDiagnostics_append a b⟩, fun a b => tokenize_padded,
    fun a => tokenize_padded (sourceLines_withReturns a), fun a b ls ms line => tokenize_insert, fun a => ?_⟩
  have htokens := numbered_tokens.pairwise_readings 1 (sourceLines a)
  refine ⟨htokens.imp ?_, numbered_diagnostics.pairwise_readings 1 (sourceLines a), fun t ht => ?_, fun d hd => ?_,
    fun i line => yields_line⟩
  · rintro s t ⟨m, hm, n, hn, hlt⟩
    rwa [← Option.some.inj hm, ← Option.some.inj hn] at hlt
  · obtain ⟨i, hi, hnumber⟩ := numbered_tokens.exists_of_mem_readings ht
    exact ⟨i, hi, by rw [Option.some.inj hnumber]; omega⟩
  · obtain ⟨i, hi, hnumber⟩ := numbered_diagnostics.exists_of_mem_readings hd
    exact ⟨i, hi, by rw [hnumber]; congr 1; omega⟩

/-- A form whose lines are indented and end with carriage returns, and the same form with a comment in it. -/
theorem indented_form_line_by_line :
    tokenize "\u00a0@form \r\n\t@endform" = tokenize "@form\n@endform" ∧
      tokenize "@form\n  @// fields\n@endform" = (tokenize "@form\n@endform").map (.renumber (pushed 1)) ∧
      Yields ['@', 'e', 'n', 'd', 'f', 'o', 'r', 'm'] 2 ((tokenize "@form\n@endform").filter (·.line = 2))
        ((lineDiagnostics "@form\n@endform").filter (·.line = some 2)) := by
  have hlines : sourceLines "@form\n@endform" = [['@', 'f', 'o', 'r', 'm'], ['@', 'e', 'n', 'd', 'f', 'o', 'r', 'm']] := by
    decide
  have hindented : sourceLines "\u00a0@form \r\n\t@endform" = [['\u00a0'] ++ ['@', 'f', 'o', 'r', 'm'] ++ [' ', '\r'],
      ['\t'] ++ ['@', 'e', 'n', 'd', 'f', 'o', 'r', 'm'] ++ []] := by decide
  have hcommented : sourceLines "@form\n  @// fields\n@endform" = [['@', 'f', 'o', 'r', 'm']] ++
      ([' ', ' '] ++ Line.commentMarker ++ [' ', 'f', 'i', 'e', 'l', 'd', 's']) ::
        [['@', 'e', 'n', 'd', 'f', 'o', 'r', 'm']] := by decide
  obtain ⟨-, hpadded, -, hinsert, hyields⟩ := tokenized_line_by_line
  refine ⟨(hpadded _ _ ?_).1, (hinsert _ _ [_] _ _ (Or.inr ⟨[' ', ' '], _, by simp [isBlank], rfl⟩) hlines hcommented).1,
    (hyields _).2.2.2.2 1 _ (by rw [hlines]; rfl)⟩
  rw [hlines, hindented]
  exact .cons ⟨_, _, by simp [isBlank], rfl⟩ (.cons ⟨_, _, by simp [isBlank], rfl⟩ .nil)

end FormDirectives
