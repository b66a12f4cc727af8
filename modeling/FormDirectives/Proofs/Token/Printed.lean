import FormDirectives.Proofs.Text.Blank
import FormDirectives.Proofs.Token.Lines

/-! Directive lines as they are written: the marker, the name, and each property with its value in quotes. A value
    may hold blanks, marks and further `key="value"` texts. It does not mislead the reader of the line, who looks for
    the next pair behind its closing quote. -/

namespace FormDirectives
open Text

namespace Text
variable {c : Char} {cs : List Char}

/-- A run of word characters that is not empty. -/
def IsWordRun (cs : List Char) : Prop := cs ≠ [] ∧ ∀ c ∈ cs, isWord c = true

instance : DecidablePred IsWordRun := fun cs =>
  decidable_of_iff (cs ≠ [] ∧ cs.all isWord = true) (by rw [IsWordRun, List.all_eq_true])

theorem IsWordRun.notMem (h : IsWordRun cs) (hc : isWord c = false) : c ∉ cs := fun hmem =>
  Bool.false_ne_true (hc.symm.trans (h.2 c hmem))

theorem isBlank_of_isWord (h : isWord c = true) : isBlank c = false := by
  rw [← Bool.not_eq_true]
  intro hblank
  have hbounds := bounds_of_isWord h
  simp only [isBlank, Bool.or_eq_true, Bool.and_eq_true, decide_eq_true_eq] at hblank
  omega

/-- A text that neither begins nor ends with a blank is stripped of nothing. -/
theorem strip_eq_self (hfirst : ∀ c ∈ cs.head?, isBlank c = false) (hlast : ∀ c ∈ cs.getLast?, isBlank c = false) :
    strip cs = cs := by
  rw [strip, dropWhile_eq_self hfirst, dropWhile_eq_self (by rwa [List.head?_reverse]), List.reverse_reverse]

end Text

/-! ### Pairs -/

namespace Props

/-- A key is a word; a value ends neither its quotes nor its line. -/
def Printable (p : Props) : Prop := ∀ e ∈ p.entries, IsWordRun e.1.toList ∧ ∀ c ∈ e.2.toList, c ≠ '"' ∧ c ≠ '\n'

instance : DecidablePred Printable := fun p =>
  decidable_of_iff
    ((p.entries.all fun e => IsWordRun e.1.toList ∧ e.2.toList.all (fun c => c ≠ '"' ∧ c ≠ '\n') = true) = true)
    (by simp only [Printable, List.all_eq_true, decide_eq_true_eq])

/-- The pairs as they are written, each behind a blank. -/
def printed (p : Props) : String := String.join (p.entries.map fun e => " " ++ e.1 ++ "=\"" ++ e.2 ++ "\"")

variable {key value rest : List Char}

def pairChars (p : Pair) : List Char := p.1 ++ '=' :: '"' :: (p.2 ++ ['"'])

theorem value?_append (hvalue : '"' ∉ value) (rest : List Char) :
    ∃ h, value? (value ++ '"' :: rest) = some (value, ⟨rest, h⟩) := by
  have hplain : ∀ c ∈ value, decide (c ≠ '"') = true := fun c hc => decide_eq_true fun h => hvalue (h ▸ hc)
  have htake : (value ++ '"' :: rest).takeWhile (· ≠ '"') = value := by
    rw [List.takeWhile_append_of_pos hplain]
    simp
  have hdrop : (value ++ '"' :: rest).dropWhile (· ≠ '"') = '"' :: rest := by
    rw [List.dropWhile_append_of_pos hplain]
    simp
  have hshorter : rest.length < (value ++ '"' :: rest).length := by
    simp only [List.length_append, List.length_cons]
    omega
  refine ⟨hshorter, ?_⟩
  unfold value?
  split
  · next h => cases hdrop.symm.trans h
  · next h =>
    cases hdrop.symm.trans h
    rw [htake]

theorem pair?_append (hkey : IsWordRun key) (hvalue : '"' ∉ value) (rest : List Char) :
    ∃ h, pair? (pairChars (key, value) ++ rest) = some ((key, value), ⟨rest, h⟩) := by
  obtain ⟨hshorter, hread⟩ := value?_append hvalue rest
  have hchars : pairChars (key, value) ++ rest = key ++ '=' :: '"' :: (value ++ '"' :: rest) := by simp [pairChars]
  have htake : (pairChars (key, value) ++ rest).takeWhile isWord = key := by
    rw [hchars, List.takeWhile_append_of_pos hkey.2]
    simp [isWord, Char.isAlphanum]
  have hdrop : (pairChars (key, value) ++ rest).dropWhile isWord = '=' :: '"' :: (value ++ '"' :: rest) := by
    rw [hchars, List.dropWhile_append_of_pos hkey.2]
    rfl
  have hshorter' : rest.length < (pairChars (key, value) ++ rest).length := by
    simp only [pairChars, List.length_append, List.length_cons]
    omega
  refine ⟨hshorter', ?_⟩
  unfold pair?
  simp only [htake, if_neg hkey.1]
  split
  · next body h =>
    cases hdrop.symm.trans h
    rw [hread]
    rfl
  · next h => exact absurd hdrop (h _)

theorem pairs_of_pair? {cs : List Char} {p : Pair} {after : { rest : List Char // rest.length < cs.length }}
    (h : pair? cs = some (p, after)) : pairs cs = p :: pairs after.1 := by
  cases cs with
  | nil => cases h
  | cons c cs => rw [pairs, h]

/-- What is written pair by pair is found pair by pair. -/
theorem pairs_written : ∀ {ps : List Pair}, (∀ p ∈ ps, IsWordRun p.1 ∧ '"' ∉ p.2) →
    pairs (ps.flatMap fun p => ' ' :: pairChars p) = ps
  | [], _ => by simp [pairs]
  | (key, value) :: ps, h => by
    obtain ⟨hkey, hvalue⟩ := h (key, value) List.mem_cons_self
    obtain ⟨_, hread⟩ := pair?_append hkey hvalue (ps.flatMap fun p => ' ' :: pairChars p)
    have hblank : pair? (' ' :: (pairChars (key, value) ++ ps.flatMap fun p => ' ' :: pairChars p)) = none := rfl
    have hrest := pairs_written fun p hp => h p (List.mem_cons_of_mem (key, value) hp)
    rw [List.flatMap_cons, List.cons_append, pairs, hblank]
    exact (pairs_of_pair? hread).trans (congrArg _ hrest)

theorem toList_printed (p : Props) : p.printed.toList =
    (p.entries.map fun e => (e.1.toList, e.2.toList)).flatMap fun p => ' ' :: pairChars p := by
  rw [printed, String.toList_join, List.flatMap_map, List.flatMap_map]
  congr 1
  funext e
  simp [pairChars, String.toList_append]

/-- What is written for a map of properties reads as that map. -/
theorem read_printed {p : Props} (h : p.Printable) : ofPairs (pairs p.printed.toList) = p := by
  have hwritten : ∀ q ∈ p.entries.map (fun e => (e.1.toList, e.2.toList)), IsWordRun q.1 ∧ '"' ∉ q.2 := by
    simp only [List.forall_mem_map]
    exact fun e he => ⟨(h e he).1, fun hquote => ((h e he).2 _ hquote).1 rfl⟩
  rw [toList_printed, pairs_written hwritten, ofPairs, List.map_map]
  simp only [Function.comp_def, String.ofList_toList]
  exact (congrArg _ (List.map_id' p.entries)).trans p.ofList_entries

theorem newline_notMem_printed {p : Props} (h : p.Printable) : '\n' ∉ p.printed.toList := by
  rw [toList_printed, List.flatMap_map, List.mem_flatMap]
  rintro ⟨e, he, hmem⟩
  obtain ⟨hkey, hvalue⟩ := h e he
  have hword : '\n' ∉ e.1.toList := hkey.notMem rfl
  have hplain : '\n' ∉ e.2.toList := fun hc => (hvalue _ hc).2 rfl
  simp [pairChars, hword, hplain] at hmem

/-- What is written ends with a quote, if there is any of it. -/
theorem getLast?_printed (p : Props) : ∀ c ∈ p.printed.toList.getLast?, c = '"' := by
  intro c hc
  rw [toList_printed, List.getLast?_flatMap, Option.mem_def, List.findSome?_eq_some_iff] at hc
  obtain ⟨_, q, _, _, hc, -⟩ := hc
  have hq : ' ' :: pairChars q = ' ' :: (q.1 ++ '=' :: '"' :: q.2) ++ ['"'] := by simp [pairChars]
  rw [hq, List.getLast?_concat] at hc
  exact (Option.some.inj hc).symm

end Props

/-! ### Lines -/

/-- A directive as it is written on a line of its own. -/
def directiveLine (name : String) (p : Props) : String := "@" ++ name ++ p.printed

section
variable {name : String} {p : Props}

theorem toList_directiveLine (name : String) (p : Props) :
    (directiveLine name p).toList = '@' :: (name.toList ++ p.printed.toList) := by
  simp [directiveLine, String.toList_append]

theorem strip_directiveLine (hname : IsWordRun name.toList) (p : Props) :
    strip (directiveLine name p).toList = (directiveLine name p).toList := by
  rw [toList_directiveLine]
  refine strip_eq_self (fun c hc => ?_) fun c hc => ?_
  · cases hc
    rfl
  · -- The line ends with the quote of its last value, or with its name if it has no properties.
    rw [← List.cons_append, List.getLast?_append] at hc
    rcases hlast : p.printed.toList.getLast? with _ | d
    · rw [hlast, Option.none_or] at hc
      rcases List.mem_cons.mp (List.mem_of_getLast? hc) with rfl | hc
      · rfl
      · exact isBlank_of_isWord (hname.2 c hc)
    · rw [hlast, Option.some_or] at hc
      cases hc
      rw [p.getLast?_printed c hlast]
      rfl

/-- The name ends where the properties begin. -/
theorem span_directiveLine (hname : IsWordRun name.toList) (p : Props) :
    (name.toList ++ p.printed.toList).takeWhile isWord = name.toList ∧
      (name.toList ++ p.printed.toList).dropWhile isWord = p.printed.toList := by
  rw [List.takeWhile_append_of_pos hname.2, List.dropWhile_append_of_pos hname.2, Props.toList_printed]
  rcases p.entries with _ | ⟨e, rest⟩
  · exact ⟨List.append_nil _, rfl⟩
  · exact ⟨List.append_nil _, rfl⟩

theorem read_directiveLine (hname : IsWordRun name.toList) (hp : p.Printable) :
    Line.read (directiveLine name p).toList = .directive name p := by
  obtain ⟨htake, hdrop⟩ := span_directiveLine hname p
  -- A comment has a slash where the name begins.
  have hcomment : ¬ Line.commentMarker <+: '@' :: (name.toList ++ p.printed.toList) := fun h => by
    obtain ⟨c, rest, hc⟩ := List.exists_cons_of_ne_nil hname.1
    rw [hc, List.cons_append] at h
    have hslash : '/' = c := (List.cons_prefix_cons.mp (List.cons_prefix_cons.mp h).2).1
    exact hname.notMem (c := '/') rfl (hc ▸ hslash ▸ List.mem_cons_self)
  rw [Line.read, strip_directiveLine hname, toList_directiveLine, Line.ofStripped, if_neg (by simp [hcomment])]
  simp only [htake, hdrop, if_neg hname.1, Props.read_printed hp, String.ofList_toList]

theorem newline_notMem_directiveLine (hname : IsWordRun name.toList) (hp : p.Printable) :
    '\n' ∉ (directiveLine name p).toList := by
  have hword : '\n' ∉ name.toList := hname.notMem rfl
  rw [toList_directiveLine]
  simp [hword, Props.newline_notMem_printed hp]

/-- A directive that is written on a line of its own is read from it. -/
theorem tokenize_directiveLine (hname : IsWordRun name.toList) (hp : p.Printable) :
    tokenize (directiveLine name p) = [⟨name, p, 1⟩] := by
  rw [tokenize_line (newline_notMem_directiveLine hname hp), read_directiveLine hname hp]
  rfl

/-- A value that looks like a comment and like another pair. -/
example : directiveLine "input" (.ofList [("name", "city"), ("label", " @// name=x ")]) =
    "@input name=\"city\" label=\" @// name=x \"" := by decide

end
end FormDirectives
