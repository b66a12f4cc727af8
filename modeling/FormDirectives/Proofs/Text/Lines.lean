import FormDirectives.Text.Lines
import Mathlib.Data.List.TakeWhile

/-! Lines cut at line feeds, and at all line boundaries. A line feed ends a line either way, so only the last character
    of a line is one. The two cuts come to the same for a text in which there is no other boundary and which ends with
    one, as a file of lines does. -/

namespace FormDirectives.Text
variable {cs l b : List Char}

/-! ### Line feeds -/

/-- The pieces of a text between its line feeds, except for what stands behind the last one if that is empty. -/
def feedLines (cs : List Char) : List (List Char) :=
  let pieces := cs.splitOn '\n'
  if pieces.getLast? = some [] then pieces.dropLast else pieces

theorem feedLines_feed (cs : List Char) : feedLines ('\n' :: cs) = [] :: feedLines cs := by
  obtain ⟨p, ps, hpieces⟩ := List.exists_cons_of_ne_nil (List.splitOn_ne_nil '\n' cs)
  simp only [feedLines, List.splitOn_cons_eq_if_modifyHead, hpieces, beq_self_eq_true, if_true, List.getLast?_cons_cons,
    List.dropLast_cons_cons]
  split <;> rfl

theorem feedLines_char {c : Char} (hc : c ≠ '\n') (cs : List Char) : feedLines (c :: cs) =
    (c :: (feedLines cs).head?.getD []) :: (feedLines cs).tail := by
  obtain ⟨p, ps, hpieces⟩ := List.exists_cons_of_ne_nil (List.splitOn_ne_nil '\n' cs)
  simp only [feedLines, List.splitOn_cons_eq_if_modifyHead, hpieces, beq_iff_eq, hc, if_false, List.modifyHead_cons]
  cases ps with
  | nil =>
    cases p with
    | nil => rfl
    | cons d p => rfl
  | cons q ps =>
    simp only [List.getLast?_cons_cons, List.dropLast_cons_cons]
    split <;> rfl

theorem feedLines_append (hb : '\n' ∉ b) (hne : b ≠ []) (cs : List Char) : feedLines (b ++ cs) =
    (b ++ (feedLines cs).head?.getD []) :: (feedLines cs).tail := by
  induction b with
  | nil => exact absurd rfl hne
  | cons c b ih =>
    rw [List.mem_cons, not_or] at hb
    rw [List.cons_append, feedLines_char (Ne.symm hb.1)]
    cases b with
    | nil => rfl
    | cons d b =>
      rw [ih hb.2 (List.cons_ne_nil d b)]
      rfl

theorem feedLines_line (hl : '\n' ∉ l) (cs : List Char) : feedLines (l ++ '\n' :: cs) = l :: feedLines cs := by
  cases l with
  | nil => exact feedLines_feed cs
  | cons c l =>
    rw [feedLines_append hl (List.cons_ne_nil c l), feedLines_feed, List.head?_cons, Option.getD_some, List.append_nil,
      List.tail_cons]

theorem feedLines_flatMap {ls : List (List Char)} (h : ∀ l ∈ ls, '\n' ∉ l) :
    feedLines (ls.flatMap (· ++ ['\n'])) = ls := by
  induction ls with
  | nil => rfl
  | cons l ls ih =>
    rw [List.flatMap_cons, List.append_assoc, List.singleton_append, feedLines_line (h l List.mem_cons_self),
      ih fun m hm => h m (List.mem_cons_of_mem l hm)]

/-- A part of a text that has a line feed at its end at most. -/
def FeedLast (b : List Char) : Prop := (∃ l, b = l ++ ['\n'] ∧ '\n' ∉ l) ∨ '\n' ∉ b

theorem FeedLast.notMem (h : FeedLast (l ++ ['\n'])) : '\n' ∉ l := by
  rcases h with ⟨l', heq, hl'⟩ | hnone
  · rwa [List.append_inj_left' heq rfl]
  · exact absurd (List.mem_append_right l (List.mem_singleton_self _)) hnone

theorem FeedLast.cons {c : Char} (h : FeedLast b) (hc : c ≠ '\n') : FeedLast (c :: b) := by
  have hcons {l : List Char} (hl : '\n' ∉ l) : '\n' ∉ c :: l := List.not_mem_cons_of_ne_of_not_mem (Ne.symm hc) hl
  rcases h with ⟨l, rfl, hl⟩ | hb
  · exact Or.inl ⟨c :: l, rfl, hcons hl⟩
  · exact Or.inr (hcons hb)

/-- A line starts as some part of the text does, and it is that part if the part ends with a line feed. -/
theorem exists_part_of_mem_feedLines {parts : List (List Char)} (hparts : ∀ b ∈ parts, FeedLast b ∧ b ≠ [])
    (hl : l ∈ feedLines parts.flatten) : l ++ ['\n'] ∈ parts ∨ ∃ b ∈ parts, '\n' ∉ b ∧ b <+: l := by
  induction parts with
  | nil => exact absurd hl List.not_mem_nil
  | cons b parts ih =>
    have hrest (hl : l ∈ feedLines parts.flatten) :
        l ++ ['\n'] ∈ b :: parts ∨ ∃ b' ∈ b :: parts, '\n' ∉ b' ∧ b' <+: l := by
      rcases ih (fun b hb => hparts b (List.mem_cons_of_mem _ hb)) hl with hpart | ⟨b', hb', hstarts⟩
      · exact Or.inl (List.mem_cons_of_mem b hpart)
      · exact Or.inr ⟨b', List.mem_cons_of_mem b hb', hstarts⟩
    obtain ⟨hfeed, hne⟩ := hparts b List.mem_cons_self
    rw [List.flatten_cons] at hl
    rcases hfeed with ⟨body, rfl, hbody⟩ | hb
    · rw [List.append_assoc, List.singleton_append, feedLines_line hbody] at hl
      rcases List.mem_cons.mp hl with rfl | hl
      · exact Or.inl List.mem_cons_self
      · exact hrest hl
    · rw [feedLines_append hb hne] at hl
      rcases List.mem_cons.mp hl with rfl | hl
      · exact Or.inr ⟨b, List.mem_cons_self, hb, List.prefix_append b _⟩
      · exact hrest (List.mem_of_mem_tail hl)

/-! ### Line boundaries -/

theorem newline_notMem_takeWhile (cs : List Char) : '\n' ∉ cs.takeWhile fun c => !isLineEnd c := fun h =>
  absurd (List.mem_takeWhile_imp h) (by decide)

theorem feedLast_firstLine (cs : List Char) : FeedLast (firstLine cs).1 := by
  have htext := newline_notMem_takeWhile cs
  unfold firstLine
  split
  · refine Or.inl ⟨(cs.takeWhile fun c => !isLineEnd c) ++ ['\r'], by rw [List.append_assoc]; rfl, ?_⟩
    rw [List.mem_append]
    exact not_or.mpr ⟨htext, by decide⟩
  · next c rest _ _ =>
    by_cases hc : c = '\n'
    · exact Or.inl ⟨_, by rw [hc], htext⟩
    · refine Or.inr ?_
      rw [List.mem_append, List.mem_singleton]
      exact not_or.mpr ⟨htext, Ne.symm hc⟩
  · exact Or.inr htext

theorem feedLast_of_mem_linesWithEnds (h : l ∈ linesWithEnds cs) : FeedLast l := by
  fun_induction linesWithEnds cs with
  | case1 => exact absurd h List.not_mem_nil
  | case2 cs hne _ ih =>
    rcases List.mem_cons.mp h with rfl | h
    · exact feedLast_firstLine cs
    · exact ih h

/-- The only line boundaries of a text are line feeds, and it ends with one unless it is empty. -/
structure OnlyFeeds (cs : List Char) : Prop where
  boundary : ∀ c ∈ cs, isLineEnd c = true → c = '\n'
  last : cs = [] ∨ cs.getLast? = some '\n'

/-- A text that is written out can be looked through. -/
theorem onlyFeeds_ofList (hboundary : cs.all (fun c => !isLineEnd c || c == '\n') = true)
    (hlast : cs = [] ∨ cs.getLast? = some '\n') : OnlyFeeds (String.ofList cs).toList := by
  rw [String.toList_ofList]
  refine ⟨fun c hc hend => ?_, hlast⟩
  have hfeed := List.all_eq_true.mp hboundary c hc
  rw [hend] at hfeed
  exact beq_iff_eq.mp hfeed

theorem OnlyFeeds.firstLine_eq (h : OnlyFeeds cs) (hne : cs ≠ []) :
    ∃ l rest, firstLine cs = (l ++ ['\n'], rest) ∧ '\n' ∉ l ∧ OnlyFeeds rest := by
  have hparts := cs.takeWhile_append_dropWhile (p := fun c => !isLineEnd c)
  have hfeed : cs.getLast? = some '\n' := h.last.resolve_left hne
  unfold firstLine
  split
  · next rest hrest =>
    rw [hrest] at hparts
    exact absurd (h.boundary '\r' (hparts ▸ by simp) (by decide)) (by decide)
  · next c rest _ hrest =>
    have hend := List.head?_dropWhile_not (fun c => !isLineEnd c) cs
    rw [hrest] at hend hparts
    have hc : c = '\n' := h.boundary c (hparts ▸ by simp) (by simpa using hend)
    refine ⟨_, rest, by rw [hc], newline_notMem_takeWhile cs, ⟨fun d hd => h.boundary d (hparts ▸ by simp [hd]), ?_⟩⟩
    cases rest with
    | nil => exact Or.inl rfl
    | cons d rest =>
      rw [← hparts, List.getLast?_append, List.getLast?_cons_cons] at hfeed
      exact Or.inr (by simpa using hfeed)
  · next hnone =>
    rw [hnone, List.append_nil] at hparts
    rw [← hparts] at hfeed
    exact absurd (List.mem_of_getLast? hfeed) (newline_notMem_takeWhile cs)

theorem OnlyFeeds.linesWithEnds_eq (h : OnlyFeeds cs) : linesWithEnds cs = (feedLines cs).map (· ++ ['\n']) := by
  fun_induction linesWithEnds cs with
  | case1 => rfl
  | case2 cs hne _ ih =>
    obtain ⟨l, rest, hfirst, hl, hrest⟩ := h.firstLine_eq hne
    have happ := firstLine_append cs
    rw [hfirst] at happ ih ⊢
    rw [ih hrest, ← happ, List.append_assoc, List.singleton_append, feedLines_line hl]
    rfl

end FormDirectives.Text
