import FormDirectives.Proofs.Entries
import FormDirectives.Proofs.Token.Printing

/-! The pairs of a text. A text can be cut in one way only into pairs and gaps so that no pair starts within a gap,
    whatever quotes are missing or too many; and the pairs of this cut are those that are found from left to right. A
    key that comes again keeps its place among them and takes the later value. -/

namespace FormDirectives.Props
open Text

/-- A key, an equals sign and a value in quotes stand at the start of the text. -/
def StartsPair (cs : List Char) : Prop := ∃ p rest, IsWordRun p.1 ∧ '"' ∉ p.2 ∧ cs = pairChars p ++ rest

/-- No pair starts within the gap, wherever it would end in what follows. -/
def IsGap (gap rest : List Char) : Prop :=
  ∀ before after, gap = before ++ after → after ≠ [] → ¬ StartsPair (after ++ rest)

/-- The text in pieces: pairs, each behind a gap that does not run into its key, and what is left behind the last. -/
inductive Cut : List Char → List (List Char × Pair) → List Char → Prop
  | last {cs : List Char} (hgap : IsGap cs []) : Cut cs [] cs
  | pair {cs gap rest last : List Char} {p : Pair} {found : List (List Char × Pair)}
    (htext : cs = gap ++ (pairChars p ++ rest)) (hkey : IsWordRun p.1) (hvalue : '"' ∉ p.2)
    (hend : ∀ c ∈ gap.getLast?, isWord c = false) (hgap : IsGap gap (pairChars p ++ rest))
    (hrest : Cut rest found last) :
    Cut cs ((gap, p) :: found) last

variable {cs gap gap' rest rest' last last' : List Char} {c : Char} {p q : Pair}
  {found found' : List (List Char × Pair)}

theorem Cut.text (h : Cut cs found last) : cs = found.flatMap (fun g => g.1 ++ pairChars g.2) ++ last := by
  induction h with
  | last hgap => rfl
  | pair htext _ _ _ _ _ ih => rw [htext, List.flatMap_cons, List.append_assoc, List.append_assoc, ← ih]

/-! ### Starting pairs -/

theorem startsPair_append (hkey : IsWordRun p.1) (hvalue : '"' ∉ p.2) (rest : List Char) :
    StartsPair (pairChars p ++ rest) := ⟨p, rest, hkey, hvalue, rfl⟩

theorem not_startsPair_of_none (h : pair? cs = none) : ¬ StartsPair cs := by
  rintro ⟨p, rest, hkey, hvalue, rfl⟩
  obtain ⟨_, hsome⟩ := pair?_append hkey hvalue rest
  cases h.symm.trans hsome

/-- A word character before a pair belongs to its key. -/
theorem startsPair_cons (hc : isWord c = true) (hkey : IsWordRun p.1) (hvalue : '"' ∉ p.2) (rest : List Char) :
    StartsPair (c :: (pairChars p ++ rest)) :=
  ⟨(c :: p.1, p.2), rest, ⟨List.cons_ne_nil c p.1, List.forall_mem_cons.mpr ⟨hc, hkey.2⟩⟩, hvalue, rfl⟩

/-- A text that starts with a pair starts with no other. -/
theorem pairChars_cancel (hp : IsWordRun p.1 ∧ '"' ∉ p.2) (hq : IsWordRun q.1 ∧ '"' ∉ q.2)
    (h : pairChars p ++ rest = pairChars q ++ rest') : p = q ∧ rest = rest' := by
  have hread {p : Pair} (hp : IsWordRun p.1 ∧ '"' ∉ p.2) (rest : List Char) :
      (pair? (pairChars p ++ rest)).map (fun r => (r.1, r.2.1)) = some (p, rest) := by
    obtain ⟨_, hsome⟩ := pair?_append hp.1 hp.2 rest
    rw [hsome]
    rfl
  have hsame := (hread hp rest).symm.trans (h ▸ hread hq rest')
  exact Prod.mk.inj (Option.some.inj hsame)

/-! ### Gaps -/

theorem isGap_nil (rest : List Char) : IsGap [] rest := fun _ _ h hafter =>
  absurd (List.append_eq_nil_iff.mp h.symm).2 hafter

theorem IsGap.cons (h : IsGap gap rest) (hc : ¬ StartsPair (c :: (gap ++ rest))) : IsGap (c :: gap) rest := by
  intro before after htext hafter
  rcases List.cons_eq_append_iff.mp htext with ⟨-, rfl⟩ | ⟨before', -, hgap⟩
  · exact hc
  · exact h before' after hgap hafter

/-- If one gap were longer than the other, a pair would start within it. -/
theorem IsGap.cancel (h : IsGap gap rest) (h' : IsGap gap' rest') (hrest : StartsPair rest) (hrest' : StartsPair rest')
    (htext : gap ++ rest = gap' ++ rest') : gap = gap' ∧ rest = rest' := by
  rcases List.append_eq_append_iff.mp htext with ⟨more, hgap, hmore⟩ | ⟨more, hgap, hmore⟩
  · have hnil : more = [] := by_contra fun hne => h' gap more hgap hne (hmore ▸ hrest)
    subst hnil
    exact ⟨(List.append_nil gap ▸ hgap).symm, hmore⟩
  · have hnil : more = [] := by_contra fun hne => h gap' more hgap hne (hmore ▸ hrest')
    subst hnil
    exact ⟨List.append_nil gap' ▸ hgap, hmore.symm⟩

/-! ### Cuts -/

/-- Where no pair starts, the first gap begins one character earlier. -/
theorem Cut.cons (h : Cut cs found last) (hc : ¬ StartsPair (c :: cs)) :
    ∃ found' last', Cut (c :: cs) found' last' ∧ found'.map (·.2) = found.map (·.2) := by
  cases h with
  | last hgap => exact ⟨[], c :: cs, .last (hgap.cons (by rwa [List.append_nil])), rfl⟩
  | @pair _ gap rest last p found htext hkey hvalue hend hgap hrest =>
    refine ⟨(c :: gap, p) :: found, last,
      .pair (congrArg (c :: ·) htext) hkey hvalue ?_ (hgap.cons (htext ▸ hc)) hrest, rfl⟩
    rcases List.eq_nil_or_concat' gap with rfl | ⟨gap, d, rfl⟩
    · rintro _ ⟨⟩
      rw [← Bool.not_eq_true]
      exact fun hword => hc (htext ▸ startsPair_cons hword hkey hvalue rest)
    · rwa [← List.cons_append, List.getLast?_concat, ← List.getLast?_concat]

theorem exists_cut (cs : List Char) : ∃ found last, Cut cs found last ∧ found.map (·.2) = pairs cs := by
  fun_induction pairs cs with
  | case1 => exact ⟨[], [], .last (isGap_nil []), rfl⟩
  | case2 c rest p after hshorter hpair ih =>
    obtain ⟨hkey, hvalue, htext⟩ := pair?_eq_some hpair
    obtain ⟨found, last, hcut, hpairs⟩ := ih
    exact ⟨([], p) :: found, last, .pair htext hkey hvalue (by simp) (isGap_nil _) hcut, congrArg (p :: ·) hpairs⟩
  | case3 c rest hnone ih =>
    obtain ⟨found, last, hcut, hpairs⟩ := ih
    obtain ⟨found', last', hcut', hpairs'⟩ := hcut.cons (not_startsPair_of_none hnone)
    exact ⟨found', last', hcut', hpairs'.trans hpairs⟩

theorem IsGap.not_pair (h : IsGap cs []) (hkey : IsWordRun p.1) (hvalue : '"' ∉ p.2) :
    cs ≠ gap ++ (pairChars p ++ rest) := by
  intro htext
  refine h gap _ htext (by simp [pairChars]) ?_
  rw [List.append_nil]
  exact startsPair_append hkey hvalue rest

theorem Cut.unique (h : Cut cs found last) (h' : Cut cs found' last') : found' = found ∧ last' = last := by
  induction h generalizing found' last' with
  | last hgap =>
    cases h' with
    | last => exact ⟨rfl, rfl⟩
    | pair htext hkey hvalue => exact absurd htext (hgap.not_pair hkey hvalue)
  | pair htext hkey hvalue hend hgap hrest ih =>
    cases h' with
    | last hgap' => exact absurd htext (hgap'.not_pair hkey hvalue)
    | pair htext' hkey' hvalue' hend' hgap' hrest' =>
      obtain ⟨rfl, hpairs⟩ := hgap.cancel hgap' (startsPair_append hkey hvalue _) (startsPair_append hkey' hvalue' _)
        (htext.symm.trans htext')
      obtain ⟨rfl, rfl⟩ := pairChars_cancel ⟨hkey, hvalue⟩ ⟨hkey', hvalue'⟩ hpairs
      obtain ⟨rfl, rfl⟩ := ih hrest'
      exact ⟨rfl, rfl⟩

/-- Every text is cut in one way only, and what is read from it are the pairs of the cut: the keys in the order in which
    they first come, each with the value that comes with it last. -/
theorem read_leftmost_pairs (text : String) : ∃ found last, Cut text.toList found last ∧
    (∀ found' last', Cut text.toList found' last' → found' = found ∧ last' = last) ∧
    text.toList = found.flatMap (fun g => g.1 ++ pairChars g.2) ++ last ∧
    Firsts (found.map fun g => String.ofList g.2.1) (read text).keys ∧
    ∀ key, (read text).get? key =
      (found.filter fun g => String.ofList g.2.1 = key).getLast?.map fun g => String.ofList g.2.2 := by
  obtain ⟨found, last, hcut, hpairs⟩ := exists_cut text.toList
  have hread : read text = .ofList (found.map fun g => (String.ofList g.2.1, String.ofList g.2.2)) := by
    rw [read, ofPairs, ← hpairs, List.map_map]
    rfl
  refine ⟨found, last, hcut, fun _ _ => hcut.unique, hcut.text, ?_, fun key => ?_⟩
  · have hkeys := OrderedMap.firsts_keys_ofList (found.map fun g => (String.ofList g.2.1, String.ofList g.2.2))
    rwa [List.map_map, ← hread] at hkeys
  · rw [hread, OrderedMap.get?_ofList, List.filter_map, List.getLast?_map, Option.map_map]
    rfl

/-- A value without its closing quote takes in the key behind it, and a key that comes again takes its last value. -/
example : read "a=\"1\"b=\"x c=\"2\" a=\"3\"é_=\"\"" = .ofList [("a", "3"), ("b", "x c="), ("_", "")] := by
  decide +kernel

end FormDirectives.Props
