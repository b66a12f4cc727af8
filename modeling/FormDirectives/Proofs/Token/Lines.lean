import FormDirectives.Token

/-! A source is read line by line. Where two sources stand one below the other, the lines of the lower one are read as
    if it stood alone, only their numbers are counted from the end of the upper one. Directives and reports are told
    from their lines in the same way, so what holds of both is said once (`Numbered`). -/

namespace FormDirectives
open Text

def sourceLines (source : String) : List (List Char) := source.toList.splitOn '\n'

/-- The number of lines of a source; a source without a line feed is one line. -/
def lineCount (source : String) : Nat := (source.toList.splitOn '\n').length

/-- The same directive further down. -/
def Token.down (lines : Nat) (t : Token) : Token := { t with line := t.line + lines }

def Token.renumber (f : Int → Int) (t : Token) : Token := { t with line := f t.line }

def Diagnostic.renumber (f : Int → Int) (d : Diagnostic) : Diagnostic := { d with line := d.line.map f }

/-- A piece of what is split holds characters of the whole, but none that it is split at. -/
theorem of_mem_splitOn {x c : Char} : ∀ {cs piece : List Char}, piece ∈ cs.splitOn x → c ∈ piece → c ≠ x ∧ c ∈ cs
  | [], piece, h, hc => by
    rw [List.mem_singleton.mp h] at hc
    exact absurd hc List.not_mem_nil
  | d :: cs, piece, h, hc => by
    have ih : ∀ piece ∈ cs.splitOn x, c ∈ piece → c ≠ x ∧ c ∈ cs := fun _ => of_mem_splitOn
    rw [List.splitOn_cons_eq_if_modifyHead] at h
    split at h
    · rcases List.mem_cons.mp h with rfl | h
      · exact absurd hc List.not_mem_nil
      · exact (ih piece h hc).imp_right (List.mem_cons_of_mem d)
    · next hd =>
      obtain ⟨first, rest, hpieces⟩ := List.exists_cons_of_ne_nil (List.splitOn_ne_nil x cs)
      rw [hpieces] at h ih
      rcases List.mem_cons.mp h with rfl | h
      · rcases List.mem_cons.mp hc with rfl | hc
        · exact ⟨fun heq => hd (beq_iff_eq.mpr heq), List.mem_cons_self⟩
        · exact (ih first List.mem_cons_self hc).imp_right (List.mem_cons_of_mem d)
      · exact (ih piece (List.mem_cons_of_mem first h) hc).imp_right (List.mem_cons_of_mem d)

/-- A line is passed over, or it is reported as a whole, or it begins with the name of a directive. -/
theorem Line.read_cases (cs : List Char) :
    ((strip cs = [] ∨ commentMarker <+: strip cs) ∧ read cs = .skipped) ∨
    ¬ (strip cs = [] ∨ commentMarker <+: strip cs) ∧ (read cs = .unparsable (String.ofList (strip cs)) ∨
      ∃ rest, strip cs = '@' :: rest ∧ rest.takeWhile isWord ≠ [] ∧ read cs =
        .directive (String.ofList (rest.takeWhile isWord)) (Props.ofPairs (Props.pairs (rest.dropWhile isWord)))) := by
  rw [read]
  unfold ofStripped
  by_cases h : strip cs = [] ∨ commentMarker <+: strip cs
  · exact Or.inl ⟨h, if_pos h⟩
  · rw [if_neg h]
    refine Or.inr ⟨h, ?_⟩
    split
    · next rest hmarked =>
      by_cases hname : rest.takeWhile isWord = []
      · exact Or.inl (if_pos hname)
      · exact Or.inr ⟨rest, hmarked, hname, if_neg hname⟩
    · exact Or.inl rfl

/-! ### What lines give -/

/-- What is read from lines of which the first has the number `first`, one entry at most from each. -/
def readings {α : Type} (g : Nat → Line → Option α) (first : Nat) (lines : List (List Char)) : List α :=
  ((lines.map Line.read).zipIdx first).filterMap fun l => g l.2 l.1

/-- Entries bear the numbers of their lines and say nothing else of them, and a skipped line has none. -/
structure Numbered {α : Type} (g : Nat → Line → Option α) (number : α → Option Int)
    (renumber : (Int → Int) → α → α) : Prop where
  number : ∀ {n line a}, g n line = some a → number a = some (n : Int)
  renumber : ∀ {f : Int → Int} {m n : Nat} (line), f n = m → g m line = (g n line).map (renumber f)
  skipped : ∀ n, g n .skipped = none

theorem numbered_tokens : Numbered Line.token? (fun t => some t.line) Token.renumber where
  number {n line a} h := by
    cases line with
    | directive name props =>
      cases h
      rfl
    | _ => cases h
  renumber {f m n} line h := by
    cases line with
    | directive name props => simp [Line.token?, Token.renumber, h]
    | _ => rfl
  skipped _ := rfl

theorem numbered_diagnostics : Numbered Line.diagnostic? Diagnostic.line Diagnostic.renumber where
  number {n line a} h := by
    cases line with
    | unparsable text =>
      cases h
      rfl
    | _ => cases h
  renumber {f m n} line h := by
    cases line with
    | unparsable text => simp [Line.diagnostic?, Diagnostic.renumber, h]
    | _ => rfl
  skipped _ := rfl

section
variable {α : Type} {g : Nat → Line → Option α} {number : α → Option Int} {renumber : (Int → Int) → α → α}
  {f : Int → Int}

theorem readings_cons (g : Nat → Line → Option α) (n : Nat) (line : List Char) (ls : List (List Char)) :
    readings g n (line :: ls) = (g n (Line.read line)).toList ++ readings g (n + 1) ls := by
  simp only [readings, List.map_cons, List.zipIdx_cons, List.filterMap_cons]
  cases g n (Line.read line) <;> rfl

theorem readings_append (g : Nat → Line → Option α) (n : Nat) (ls ms : List (List Char)) :
    readings g n (ls ++ ms) = readings g n ls ++ readings g (n + ls.length) ms := by
  simp only [readings, List.map_append, List.zipIdx_append, List.length_map, List.filterMap_append]

/-- What is read comes from a line, with the number of that line. -/
theorem exists_line_of_mem_readings {a : α} {n : Nat} {ls : List (List Char)} (h : a ∈ readings g n ls) :
    ∃ i line, ls[i]? = some line ∧ g (n + i) (Line.read line) = some a := by
  obtain ⟨l, hl, hread⟩ := List.mem_filterMap.mp h
  obtain ⟨i, hi⟩ := List.mem_iff_getElem?.mp hl
  rw [List.getElem?_zipIdx, List.getElem?_map, Option.map_map] at hi
  obtain ⟨line, hline, rfl⟩ := Option.map_eq_some_iff.mp hi
  exact ⟨i, line, hline, hread⟩

theorem sourceLines_append (a b : String) : sourceLines (a ++ "\n" ++ b) = sourceLines a ++ sourceLines b := by
  rw [sourceLines, String.toList_append, String.toList_append, List.append_assoc]
  exact List.splitOn_append_cons_self a.toList b.toList

namespace Numbered
variable (h : Numbered g number renumber)
include h

/-- The same lines under other numbers give the same entries, with those numbers. -/
theorem readings_renumber : ∀ {ls : List (List Char)} {m n : Nat},
    (∀ j : Nat, j < ls.length → f ((n + j : Nat) : Int) = ((m + j : Nat) : Int)) →
    readings g m ls = (readings g n ls).map (renumber f)
  | [], _, _, _ => rfl
  | line :: ls, m, n, hf => by
    have hfirst : f n = m := hf 0 (Nat.succ_pos _)
    have hrest : ∀ j : Nat, j < ls.length → f ((n + 1 + j : Nat) : Int) = ((m + 1 + j : Nat) : Int) := fun j hj => by
      have hnext := hf (j + 1) (Nat.succ_lt_succ hj)
      rwa [← Nat.add_assoc, ← Nat.add_assoc, Nat.add_right_comm, Nat.add_right_comm m] at hnext
    rw [readings_cons, readings_cons, List.map_append, h.renumber (Line.read line) hfirst, readings_renumber hrest]
    cases g n (Line.read line) <;> rfl

/-- The lines of the lower source are numbered from the end of the upper one. -/
theorem readings_below (a b : String) : readings g 1 (sourceLines (a ++ "\n" ++ b)) =
    readings g 1 (sourceLines a) ++ (readings g 1 (sourceLines b)).map (renumber (· + (lineCount a : Int))) := by
  have hlower : readings g (1 + lineCount a) (sourceLines b) =
      (readings g 1 (sourceLines b)).map (renumber (· + (lineCount a : Int))) :=
    h.readings_renumber fun j _ => by omega
  rw [sourceLines_append, readings_append, ← hlower]
  rfl

end Numbered
end

theorem tokenize_append (a b : String) :
    tokenize (a ++ "\n" ++ b) = tokenize a ++ (tokenize b).map (Token.down (lineCount a)) :=
  numbered_tokens.readings_below a b

/-- A source without a line feed is one line. -/
theorem tokenize_line {source : String} (h : '\n' ∉ source.toList) :
    tokenize source = ((Line.read source.toList).token? 1).toList := by
  rw [tokenize, numberedLines, List.splitOn_eq_singleton h, List.map_singleton, List.zipIdx_singleton]
  cases hread : (Line.read source.toList).token? 1 <;> simp [hread]

/-! ### One line among the others -/

/-- Where what each place gives bears the number of the place, the entries with one number are those of one
    place. -/
theorem filter_flatMap_numbered {α β : Type} {g : α → List β} {number : β → Option Int} : ∀ {as : List α} {k : Nat},
    (∀ (j : Nat) (a : α), as[j]? = some a → ∀ b ∈ g a, number b = some ((k + j : Nat) : Int)) →
    ∀ {i : Nat} {a : α}, as[i]? = some a →
      ((as.flatMap g).filter fun b => number b = some ((k + i : Nat) : Int)) = g a
  | a₀ :: as, k, h, i, a, ha => by
    have hfirst := h 0 a₀ rfl
    have hrest : ∀ (j : Nat) (a : α), as[j]? = some a → ∀ b ∈ g a, number b = some ((k + 1 + j : Nat) : Int) :=
      fun j a hj b hb => by rw [h (j + 1) a hj b hb, Nat.add_right_comm, Nat.add_assoc]
    rw [List.flatMap_cons, List.filter_append]
    cases i with
    | zero =>
      -- What follows bears later numbers.
      obtain rfl := Option.some.inj ha
      have hkeep : ((g a₀).filter fun b => number b = some ((k + 0 : Nat) : Int)) = g a₀ :=
        List.filter_eq_self.mpr fun b hb => decide_eq_true (hfirst b hb)
      have hnone : ((as.flatMap g).filter fun b => number b = some ((k + 0 : Nat) : Int)) = [] := by
        refine List.filter_eq_nil_iff.mpr fun b hb => ?_
        obtain ⟨a', ha', hb⟩ := List.mem_flatMap.mp hb
        obtain ⟨j, hj⟩ := List.mem_iff_getElem?.mp ha'
        rw [hrest j a' hj b hb, decide_eq_true_eq, Option.some.injEq]
        omega
      rw [hkeep, hnone, List.append_nil]
    | succ i =>
      -- What comes first bears an earlier one.
      have hnone : ((g a₀).filter fun b => number b = some ((k + (i + 1) : Nat) : Int)) = [] := by
        refine List.filter_eq_nil_iff.mpr fun b hb => ?_
        rw [hfirst b hb, decide_eq_true_eq, Option.some.injEq]
        omega
      have hkeep := filter_flatMap_numbered hrest ha
      rw [Nat.add_right_comm, Nat.add_assoc] at hkeep
      rw [hnone, List.nil_append, hkeep]

end FormDirectives
