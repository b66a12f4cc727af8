import FormDirectives.Proofs.Diff.Patch
import FormDirectives.Proofs.Diff.Unified
import FormDirectives.Proofs.Json.RoundTrip

/-! The text of a comparison. The text of hunks is made of headers and of marked lines, so each of its lines starts
    with a mark, whatever the texts are that were compared. If all of their lines end with line feeds, it is read as
    the hunks that it shows. -/

namespace FormDirectives.Diff.Patch

/-! ### Headers -/

theorem number?_toDigits (n : Nat) {rest : List Char} (h : Json.Undigited rest) :
    number? (Nat.toDigits 10 n ++ rest) = some (n, rest) := by
  obtain ⟨htake, hdrop⟩ := Json.span_toDigits n h
  simp only [number?, htake, hdrop, if_neg Nat.toDigits_ne_nil, Nat.ofDigitChars_ten_toDigits]

theorem toList_rangeText (before length : Nat) : (rangeText before length).toList =
    if length = 1 then Nat.toDigits 10 (before + 1)
    else if length = 0 then Nat.toDigits 10 before ++ [',', '0']
    else Nat.toDigits 10 (before + 1) ++ ',' :: Nat.toDigits 10 length := by
  have hrepr (n : Nat) : (toString n).toList = Nat.toDigits 10 n := Nat.toList_repr
  unfold rangeText
  split
  · exact hrepr _
  split
  · rw [String.toList_append, hrepr]
    rfl
  · rw [String.toList_append, String.toList_append, hrepr, hrepr, List.append_assoc]
    rfl

theorem range?_rangeText (r : Range) (rest : List Char) :
    range? ((rangeText r.before r.length).toList ++ ' ' :: rest) = some (r, ' ' :: rest) := by
  have hblank : Json.Undigited (' ' :: rest) := fun c hc => by
    cases hc
    decide
  have hcomma (cs : List Char) : Json.Undigited (',' :: cs) := fun c hc => by
    cases hc
    decide
  obtain ⟨before, length⟩ := r
  rw [toList_rangeText]
  split
  · next hone =>
    subst hone
    simp [range?, number?_toDigits _ hblank, length?]
  split
  · next hnone =>
    subst hnone
    have hzero : number? ('0' :: ' ' :: rest) = some (0, ' ' :: rest) := number?_toDigits 0 hblank
    simp [range?, number?_toDigits _ (hcomma _), length?, hzero]
  · next hnone =>
    simp [range?, number?_toDigits _ (hcomma _), number?_toDigits _ hblank, length?, hnone]

def headerText (old new : Range) : List Char :=
  '@' :: '@' :: ' ' :: '-' :: ((rangeText old.before old.length).toList ++
    ' ' :: '+' :: ((rangeText new.before new.length).toList ++ [' ', '@', '@']))

theorem header?_headerText (old new : Range) : header? (headerText old new) = some (old, new) := by
  simp [headerText, header?, range?_rangeText]

/-! ### Hunks -/

def Entry.text : Entry → List Char
  | .keep l => ' ' :: l
  | .delete l => '-' :: l
  | .insert l => '+' :: l

def Hunk.lines (h : Hunk) : List (List Char) := headerText h.old h.new :: h.entries.map Entry.text

theorem hunks?_entries (es : List Entry) (rest : List (List Char)) :
    hunks? (es.map Entry.text ++ rest) = (hunks? rest).map fun r => (es ++ r.1, r.2) := by
  induction es with
  | nil => simp
  | cons e es ih =>
    rw [List.map_cons, List.cons_append]
    cases e <;> rw [Entry.text, hunks?, ih] <;> cases hunks? rest <;> rfl

theorem hunks?_lines (hs : List Hunk) : hunks? (hs.flatMap Hunk.lines) = some ([], hs) := by
  induction hs with
  | nil => rfl
  | cons h hs ih =>
    have hentries := hunks?_entries h.entries (hs.flatMap Hunk.lines)
    have hheader := header?_headerText h.old h.new
    obtain ⟨cs, hcs⟩ : ∃ cs, headerText h.old h.new = '@' :: cs := ⟨_, rfl⟩
    rw [hcs] at hheader
    rw [List.flatMap_cons, Hunk.lines, List.cons_append, hcs, hunks?, hentries, ih]
    simp [hheader]

/-! ### Parts of a text -/

/-- The lines of an edit with their marks and their ends. -/
def editParts : Edit → List (List Char)
  | .keep ls => ls.map fun l => ' ' :: l.toList
  | .change old new => (old.map fun l => '-' :: l.toList) ++ new.map fun l => '+' :: l.toList

def hunkParts (hunk : List Located) : List (List Char) :=
  (headerText (ofLocated hunk).old (ofLocated hunk).new ++ ['\n']) :: (hunk.map Located.edit).flatMap editParts

theorem toList_join_marked {mark : String} {m : Char} (hmark : mark.toList = [m]) (ls : List String) :
    (String.join (ls.map (mark ++ ·))).toList = (ls.map fun l => m :: l.toList).flatten := by
  rw [String.toList_join, List.flatMap_map, ← List.flatMap_def]
  refine congrArg (List.flatMap · ls) (funext fun l => ?_)
  rw [String.toList_append, hmark, List.singleton_append]

theorem toList_text (e : Edit) : e.text.toList = (editParts e).flatten := by
  cases e with
  | keep ls => exact toList_join_marked rfl ls
  | change old new =>
    rw [Edit.text, String.toList_append, toList_join_marked (m := '-') rfl, toList_join_marked (m := '+') rfl,
      editParts, List.flatten_append]

theorem toList_hunkText {hunk : List Located} (h : hunk ≠ []) : (hunkText hunk).toList = (hunkParts hunk).flatten := by
  obtain ⟨l, rest, rfl⟩ := List.exists_cons_of_ne_nil h
  have hedits : (String.join ((l :: rest).map fun l => l.edit.text)).toList =
      (((l :: rest).map Located.edit).flatMap editParts).flatten := by
    simp only [String.toList_join, List.flatMap_map, toList_text, List.flatten_eq_flatMap, List.flatMap_assoc]
  have hlength (f : Edit → List String) : ((l :: rest).flatMap fun l => f l.edit) =
      ((l :: rest).map Located.edit).flatMap f := by
    rw [List.flatMap_map]
  rw [hunkParts, List.flatten_cons, ← hedits]
  simp only [hunkText, hlength, String.toList_append, headerText, List.cons_append, List.append_assoc]
  rfl

/-! ### Marks -/

theorem newline_notMem_rangeText (r : Range) : '\n' ∉ (rangeText r.before r.length).toList := by
  have hdigits (n : Nat) : '\n' ∉ Nat.toDigits 10 n := fun h =>
    absurd (Nat.isDigit_of_mem_toDigits (by decide) (by decide) h) (by decide)
  rw [toList_rangeText]
  split
  · exact hdigits _
  split <;> simp [hdigits]

theorem newline_notMem_headerText (old new : Range) : '\n' ∉ headerText old new := by
  simp [headerText, newline_notMem_rangeText]

theorem exists_of_mem_editParts {e : Edit} {b : List Char} (hb : b ∈ editParts e) :
    ∃ line ∈ e.old ++ e.new, ∃ m ∈ [' ', '-', '+'], b = m :: line.toList := by
  cases e with
  | keep ls =>
    obtain ⟨line, hline, rfl⟩ := List.mem_map.mp hb
    exact ⟨line, List.mem_append_left _ hline, ' ', by decide, rfl⟩
  | change old new =>
    rcases List.mem_append.mp hb with hb | hb
    · obtain ⟨line, hline, rfl⟩ := List.mem_map.mp hb
      exact ⟨line, List.mem_append_left _ hline, '-', by decide, rfl⟩
    · obtain ⟨line, hline, rfl⟩ := List.mem_map.mp hb
      exact ⟨line, List.mem_append_right _ hline, '+', by decide, rfl⟩

theorem of_mem_hunkParts {hunk : List Located} {b : List Char} (hb : b ∈ hunkParts hunk) :
    (∃ old new, b = headerText old new ++ ['\n']) ∨
    ∃ l ∈ hunk, ∃ line ∈ l.edit.old ++ l.edit.new, ∃ m ∈ [' ', '-', '+'], b = m :: line.toList := by
  rcases List.mem_cons.mp hb with rfl | hb
  · exact Or.inl ⟨_, _, rfl⟩
  · obtain ⟨e, he, hb⟩ := List.mem_flatMap.mp hb
    obtain ⟨l, hl, rfl⟩ := List.mem_map.mp he
    exact Or.inr ⟨l, hl, exists_of_mem_editParts hb⟩

/-- Whatever the lines are, there is no line feed in a part but at its end. -/
theorem feedLast_of_mem_hunkParts {hunk : List Located} {b : List Char}
    (hlines : ∀ l ∈ hunk, ∀ line ∈ l.edit.old ++ l.edit.new, Text.FeedLast line.toList) (hb : b ∈ hunkParts hunk) :
    Text.FeedLast b ∧ b ≠ [] := by
  rcases of_mem_hunkParts hb with ⟨old, new, rfl⟩ | ⟨l, hl, line, hline, m, hm, rfl⟩
  · exact ⟨Or.inl ⟨_, rfl, newline_notMem_headerText old new⟩, List.cons_ne_nil _ _⟩
  · exact ⟨(hlines l hl line hline).cons fun h => absurd (h ▸ hm) (by decide), List.cons_ne_nil _ _⟩

theorem editParts_eq {e : Edit} (hlines : ∀ line ∈ e.old ++ e.new, line.toList = body line ++ ['\n']) :
    editParts e = (entries e).map fun entry => entry.text ++ ['\n'] := by
  have hpart {ls : List String} (hls : ∀ line ∈ ls, line.toList = body line ++ ['\n']) (m : Char) :
      (ls.map fun l => m :: l.toList) = ls.map fun l => m :: body l ++ ['\n'] :=
    List.map_congr_left fun l hl => by rw [hls l hl, List.cons_append]
  cases e with
  | keep ls =>
    have hkept : ∀ line ∈ ls, line.toList = body line ++ ['\n'] := fun line h => hlines line (List.mem_append_left _ h)
    rw [editParts, entries, hpart hkept, List.map_map]
    rfl
  | change old new =>
    have hold : ∀ line ∈ old, line.toList = body line ++ ['\n'] := fun line h => hlines line (List.mem_append_left _ h)
    have hnew : ∀ line ∈ new, line.toList = body line ++ ['\n'] := fun line h => hlines line (List.mem_append_right _ h)
    rw [editParts, entries, hpart hold, hpart hnew, List.map_append, List.map_map, List.map_map]
    rfl

/-- The parts are the lines of the hunk if all lines of the texts end with line feeds. -/
theorem hunkParts_eq {hunk : List Located}
    (hlines : ∀ l ∈ hunk, ∀ line ∈ l.edit.old ++ l.edit.new, line.toList = body line ++ ['\n']) :
    hunkParts hunk = (ofLocated hunk).lines.map (· ++ ['\n']) := by
  have hedits : (hunk.map Located.edit).flatMap editParts =
      ((hunk.map Located.edit).flatMap entries).map fun entry => entry.text ++ ['\n'] := by
    rw [List.map_flatMap, List.flatMap_def, List.flatMap_def]
    refine congrArg List.flatten (List.map_congr_left fun e he => ?_)
    obtain ⟨l, hl, rfl⟩ := List.mem_map.mp he
    exact editParts_eq (hlines l hl)
  rw [hunkParts, Hunk.lines, List.map_cons, List.map_map, hedits]
  rfl

/-! ### Texts -/

theorem feedLast_of_mem_lines {text line : String} (h : line ∈ lines text) : Text.FeedLast line.toList := by
  obtain ⟨cs, hcs, rfl⟩ := List.mem_map.mp h
  rw [String.toList_ofList]
  exact Text.feedLast_of_mem_linesWithEnds hcs

theorem map_body_lines {text : String} (h : Text.OnlyFeeds text.toList) :
    (lines text).map body = Text.feedLines text.toList := by
  rw [lines, h.linesWithEnds_eq, List.map_map, List.map_map]
  simp [Function.comp_def, body]

theorem toList_of_mem_lines {text line : String} (h : Text.OnlyFeeds text.toList) (hline : line ∈ lines text) :
    line.toList = body line ++ ['\n'] := by
  rw [lines, h.linesWithEnds_eq, List.map_map] at hline
  obtain ⟨cs, -, rfl⟩ := List.mem_map.mp hline
  simp [body]

theorem ofList_feedLines {text : String} (h : Text.OnlyFeeds text.toList) :
    String.ofList ((Text.feedLines text.toList).flatMap (· ++ ['\n'])) = text := by
  rw [List.flatMap_def, ← h.linesWithEnds_eq, Text.flatten_linesWithEnds, String.ofList_toList]

/-! ### Hunks that lead from text to text -/

section
variable {oldText newText : String} {hs : List (List Located)} {hunk : List Located} {b l : List Char}
  (hleads : Leads 0 0 hs (lines oldText) (lines newText))
include hleads

theorem feedLast_of_mem_parts (hhunk : hunk ∈ hs) (hb : b ∈ hunkParts hunk) : Text.FeedLast b ∧ b ≠ [] := by
  refine feedLast_of_mem_hunkParts (fun l hl line hline => ?_) hb
  rcases List.mem_append.mp (hleads.mem_lines hhunk hl hline) with hline | hline
  · exact feedLast_of_mem_lines hline
  · exact feedLast_of_mem_lines hline

/-- Whatever the texts are, each line is a header or starts with a mark. -/
theorem marked_of_mem_feedLines (hl : l ∈ Text.feedLines (hs.flatMap hunkParts).flatten) :
    (∃ old new, l = headerText old new) ∨ ∃ m ∈ [' ', '-', '+'], ∃ rest, l = m :: rest := by
  have hparts : ∀ b ∈ hs.flatMap hunkParts, Text.FeedLast b ∧ b ≠ [] := fun b hb => by
    obtain ⟨hunk, hhunk, hb⟩ := List.mem_flatMap.mp hb
    exact feedLast_of_mem_parts hleads hhunk hb
  rcases Text.exists_part_of_mem_feedLines hparts hl with hpart | ⟨b, hb, hfeed, rest, rfl⟩
  · obtain ⟨hunk, -, hpart⟩ := List.mem_flatMap.mp hpart
    rcases of_mem_hunkParts hpart with ⟨old, new, heq⟩ | ⟨_, -, line, -, m, hm, heq⟩
    · exact Or.inl ⟨old, new, List.append_inj_left' heq rfl⟩
    · cases l with
      | nil => exact absurd ((List.cons.inj heq).1 ▸ hm) (by decide)
      | cons c l => exact Or.inr ⟨m, hm, l, by rw [(List.cons.inj heq).1]⟩
  · obtain ⟨hunk, -, hb⟩ := List.mem_flatMap.mp hb
    rcases of_mem_hunkParts hb with ⟨old, new, rfl⟩ | ⟨_, -, line, -, m, hm, rfl⟩
    · exact absurd (List.mem_append_right _ (List.mem_singleton_self _)) hfeed
    · exact Or.inr ⟨m, hm, line.toList ++ rest, rfl⟩

variable (hold : Text.OnlyFeeds oldText.toList) (hnew : Text.OnlyFeeds newText.toList)
include hold hnew

theorem hunkParts_of_mem (hhunk : hunk ∈ hs) : hunkParts hunk = (ofLocated hunk).lines.map (· ++ ['\n']) := by
  refine hunkParts_eq fun l hl line hline => ?_
  rcases List.mem_append.mp (hleads.mem_lines hhunk hl hline) with hline | hline
  · exact toList_of_mem_lines hold hline
  · exact toList_of_mem_lines hnew hline

theorem newline_notMem_lines (hhunk : hunk ∈ hs) (hl : l ∈ (ofLocated hunk).lines) : '\n' ∉ l := by
  have hpart : l ++ ['\n'] ∈ hunkParts hunk := by
    rw [hunkParts_of_mem hleads hold hnew hhunk]
    exact List.mem_map_of_mem hl
  exact (feedLast_of_mem_parts hleads hhunk hpart).1.notMem

/-- The hunks are read from their text if both texts consist of ended lines. -/
theorem hunks?_feedLines :
    hunks? (Text.feedLines (hs.flatMap hunkParts).flatten) = some ([], hs.map ofLocated) := by
  have hparts : (hs.flatMap hunkParts).flatten = ((hs.map ofLocated).flatMap Hunk.lines).flatMap (· ++ ['\n']) := by
    rw [List.flatten_eq_flatMap, List.flatMap_assoc, List.flatMap_map, List.flatMap_assoc, List.flatMap_def,
      List.flatMap_def]
    refine congrArg List.flatten (List.map_congr_left fun hunk hhunk => ?_)
    rw [hunkParts_of_mem hleads hold hnew hhunk, List.flatMap_map]
    rfl
  have hfree : ∀ l ∈ (hs.map ofLocated).flatMap Hunk.lines, '\n' ∉ l := fun l hl => by
    obtain ⟨_, hshown, hl⟩ := List.mem_flatMap.mp hl
    obtain ⟨hunk, hhunk, rfl⟩ := List.mem_map.mp hshown
    exact newline_notMem_lines hleads hold hnew hhunk hl
  rw [hparts, Text.feedLines_flatMap hfree, hunks?_lines]

end

/-! ### Comparisons -/

section
variable {oldName newName oldText newText : String}

theorem toList_unified (h : oldText ≠ newText) : (unified oldName newName oldText newText).toList =
    ("--- " ++ oldName).toList ++ '\n' :: (("+++ " ++ newName).toList ++
      '\n' :: ((hunks (compare (lines oldText) (lines newText))).flatMap hunkParts).flatten) := by
  have hhunks : (String.join ((hunks (compare (lines oldText) (lines newText))).map hunkText)).toList =
      ((hunks (compare (lines oldText) (lines newText))).flatMap hunkParts).flatten := by
    rw [String.toList_join, List.flatMap_map, List.flatten_eq_flatMap, List.flatMap_assoc, List.flatMap_def,
      List.flatMap_def]
    refine congrArg List.flatten (List.map_congr_left fun hunk hmem => ?_)
    rw [toList_hunkText (ne_nil_of_mem_hunks hmem), List.flatten_eq_flatMap]
  rw [unified_of_ne h]
  simp only [String.toList_append, hhunks, List.append_assoc]
  rfl

theorem newline_notMem_append {mark name : String} (hmark : '\n' ∉ mark.toList) (hname : '\n' ∉ name.toList) :
    '\n' ∉ (mark ++ name).toList := by
  rw [String.toList_append, List.mem_append]
  exact not_or.mpr ⟨hmark, hname⟩

variable (hold : '\n' ∉ oldName.toList) (hnew : '\n' ∉ newName.toList) (h : oldText ≠ newText)
include hold hnew h

theorem feedLines_unified : Text.feedLines (unified oldName newName oldText newText).toList =
    ("--- " ++ oldName).toList :: ("+++ " ++ newName).toList ::
      Text.feedLines ((hunks (compare (lines oldText) (lines newText))).flatMap hunkParts).flatten := by
  rw [toList_unified h, Text.feedLines_line (newline_notMem_append (by decide) hold),
    Text.feedLines_line (newline_notMem_append (by decide) hnew)]

/-- A comparison of texts that consist of ended lines is read as its hunks. -/
theorem read?_unified (holdText : Text.OnlyFeeds oldText.toList) (hnewText : Text.OnlyFeeds newText.toList) :
    read? (unified oldName newName oldText newText).toList =
      some ((hunks (compare (lines oldText) (lines newText))).map ofLocated) := by
  have holdLine : ("--- " ++ oldName).toList = '-' :: '-' :: '-' :: ' ' :: oldName.toList := String.toList_append
  have hnewLine : ("+++ " ++ newName).toList = '+' :: '+' :: '+' :: ' ' :: newName.toList := String.toList_append
  rw [read?, feedLines_unified hold hnew h, holdLine, hnewLine]
  simp only [hunks?_feedLines (leads_compare (lines oldText) (lines newText)) holdText hnewText]

theorem patched?_unified (holdText : Text.OnlyFeeds oldText.toList) (hnewText : Text.OnlyFeeds newText.toList) :
    patched? (unified oldName newName oldText newText) oldText = some newText := by
  have happly := applyHunks_of_leads (leads_compare (lines oldText) (lines newText)) fun _ => ne_nil_of_mem_hunks
  rw [map_body_lines holdText, map_body_lines hnewText] at happly
  rw [patched?, read?_unified hold hnew h holdText hnewText]
  simp only [bind, Option.bind_some, happly, pure, ofList_feedLines hnewText]

end

end FormDirectives.Diff.Patch
