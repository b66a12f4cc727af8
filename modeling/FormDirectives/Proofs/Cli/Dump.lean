import FormDirectives.Cli.Run
import FormDirectives.Proofs.Build.WellFormed
import FormDirectives.Proofs.Json.Canonical
import FormDirectives.Proofs.Token.LineByLine
import FormDirectives.Proofs.Tree.Outline

/-! The commands that write JSON text. The properties of a token are the third object or array around their values, and
    an outline has two for each node on a path; so there is room for the tokens of every source, and for every tree that
    has an outline. Their integers are numbers of lines, which are short unless the source has more lines than any store
    could hold. -/

namespace FormDirectives

/-! ### Levels and integers -/

open Json

theorem Props.limits_toJson (p : Props) : p.toJson.depth ≤ 1 ∧ p.toJson.integers = [] := by
  constructor
  · refine Nat.succ_le_succ (membersDepth_le fun m hm => ?_)
    obtain ⟨e, -, rfl⟩ := List.mem_map.mp hm
    exact Nat.le_refl 0
  · rw [toJson, integers, membersIntegers_eq, List.flatMap_map]
    exact List.flatMap_eq_nil_iff.mpr fun _ _ => rfl

theorem Token.limits_toJson (t : Token) : t.toJson.depth ≤ 2 ∧ t.toJson.integers = [t.line] := by
  obtain ⟨hdepth, hintegers⟩ := t.props.limits_toJson
  constructor
  · simp only [toJson, depth, membersDepth]
    omega
  · simp [toJson, integers, membersIntegers, hintegers]

theorem Node.limits_outline (n : Node) (below : List Json) : (n.outline below).depth ≤ itemsDepth below + 2 ∧
    ∀ k ∈ (n.outline below).integers, k = n.line ∨ k ∈ itemsIntegers below := by
  obtain ⟨hdepth, hintegers⟩ := n.props.limits_toJson
  unfold outline
  constructor
  · split <;> split <;> simp only [depth, membersDepth, List.cons_append, List.nil_append] <;> omega
  · split <;> split <;> simp +contextual [integers, membersIntegers, hintegers]

theorem Forest.limits_outlines : ∀ f : Forest Node, itemsDepth f.outlines ≤ 2 * f.height ∧
    ∀ k ∈ itemsIntegers f.outlines, ∃ n ∈ f.toList, k = n.line
  | .nil => ⟨Nat.zero_le _, nofun⟩
  | .cons n below rest => by
    obtain ⟨hdepth, hintegers⟩ := n.limits_outline below.outlines
    obtain ⟨hbelow, hbelowIntegers⟩ := below.limits_outlines
    obtain ⟨hrest, hrestIntegers⟩ := rest.limits_outlines
    constructor
    · rw [outlines, itemsDepth, height]
      omega
    · intro k hk
      rw [outlines, itemsIntegers, List.mem_append] at hk
      rw [toList_cons]
      rcases hk with hk | hk
      · rcases hintegers k hk with hline | hk
        · exact ⟨n, List.mem_cons_self, hline⟩
        · obtain ⟨m, hm, hline⟩ := hbelowIntegers k hk
          exact ⟨m, List.mem_cons_of_mem n (List.mem_append_left _ hm), hline⟩
      · obtain ⟨m, hm, hline⟩ := hrestIntegers k hk
        exact ⟨m, List.mem_cons_of_mem n (List.mem_append_right _ hm), hline⟩

theorem dump_of_fits {v : Json} {k room : Nat} (h : Fits k v.depth v.integers) (hroom : k ≤ room) (sorted : Bool) :
    v.dump room sorted = .ok (v.write sorted) := dump_eq_ok.mpr ⟨⟨h.1.trans hroom, h.2⟩, rfl⟩

/-! ### Sources -/

section
variable {source : String}

/-- The lines of a source are short numbers, as long as their number is one. -/
theorem isShort_line (hlines : (sourceLines source).length < Text.overlong) :
    ∀ t ∈ tokenize source, isShort t.line = true := by
  intro t ht
  obtain ⟨i, hi, hline⟩ := numbered_tokens.exists_of_mem_readings (n := 1) (tokenize_eq_readings source ▸ ht)
  have hnumber : t.line.natAbs ≤ (sourceLines source).length := by
    rw [Option.some.inj hline, Int.natAbs_natCast]
    omega
  exact decide_eq_true (Nat.lt_of_le_of_lt hnumber hlines)

theorem fits_tokens (hlines : (sourceLines source).length < Text.overlong) :
    Fits 3 (Json.array ((tokenize source).map Token.toJson)).depth
      (Json.array ((tokenize source).map Token.toJson)).integers := by
  refine ⟨Nat.succ_le_succ (itemsDepth_le fun x hx => ?_), fun n hn => ?_⟩
  · obtain ⟨t, -, rfl⟩ := List.mem_map.mp hx
    exact t.limits_toJson.1
  · rw [integers, itemsIntegers_eq, List.flatMap_map] at hn
    obtain ⟨t, ht, hn⟩ := List.mem_flatMap.mp hn
    rw [t.limits_toJson.2, List.mem_singleton] at hn
    exact hn ▸ isShort_line hlines t ht

/-- There is room for an outline. -/
theorem fits_outline (hlines : (sourceLines source).length < Text.overlong) {depth : Nat} {j : Json}
    (hj : (parseLenient (tokenize source)).tree.outlineWithin? depth 0 = some j) :
    Fits (2 * depth) j.depth j.integers := by
  have hparse := parse_false_eq (tokenize source)
  obtain ⟨f, hf, -, rfl⟩ := exists_outline hparse hj
  rw [hf.outlineWithin?_eq, Option.ite_none_right_eq_some] at hj
  obtain ⟨hdepth, hintegers⟩ := Node.limits_outline { element := .root } f.outlines
  obtain ⟨hbelow, hbelowIntegers⟩ := f.limits_outlines
  refine ⟨by omega, fun k hk => ?_⟩
  rcases hintegers k hk with rfl | hk
  · decide +kernel
  · obtain ⟨n, hn, rfl⟩ := hbelowIntegers k hk
    rw [toList_of_reads hparse hf] at hn
    obtain ⟨t, ht, rfl⟩ := List.mem_map.mp hn
    exact isShort_line hlines t ((rooted_sublist 0 _).subset (List.mem_filter.mp ht).1)

end

namespace Cli
open Files

variable {s : Store} {a : Arguments} {source : String}

/-- All tokens are written. -/
theorem runTokens_eq (hread : s.readSource a.inputPath = .ok source)
    (hlines : (sourceLines source).length < Text.overlong) :
    runTokens s a = .print s ((Json.array ((tokenize source).map Token.toJson)).write false) := by
  have hroom : 3 ≤ dumpRoom := by decide
  have hdump := dump_of_fits (fits_tokens hlines) hroom false
  unfold runTokens
  rewrite [hread]
  simp only [hdump]

/-- The tree is written if it has an outline; if it has none, it is too deep. -/
theorem runAst_eq (hread : s.readSource a.inputPath = .ok source)
    (hlines : (sourceLines source).length < Text.overlong) :
    runAst s a = match (parseLenient (tokenize source)).tree.outline? 0 with
      | some outline => .print s (outline.write false)
      | none => .fail s (.tooDeep (a.input.getD "")) := by
  have hroom : 2 * Tree.maxNesting ≤ dumpRoom := by decide
  unfold runAst
  rewrite [hread]
  cases hj : (parseLenient (tokenize source)).tree.outline? 0 with
  | none => simp only [hj]
  | some j =>
    have hdump := dump_of_fits (fits_outline hlines hj) hroom false
    simp only [hj, hdump]

end Cli
end FormDirectives
