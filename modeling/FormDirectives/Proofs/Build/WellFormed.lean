import FormDirectives.Proofs.Build.Acceptance
import FormDirectives.Proofs.Build.Accounting
import FormDirectives.Proofs.Build.Strictness
import FormDirectives.Proofs.Token.LineByLine
import FormDirectives.Proofs.Token.Printed

/-! Well-formed sources. Each of their lines is blank, a comment or a directive, and the directives balance. They are
    the sources that compile without a warning, and they compile alike whether structural issues are refused or
    reported. -/

namespace FormDirectives
open Text

/-- The marker and the first character of a name, behind blanks. -/
def DirectiveLine (line : List Char) : Prop :=
  ∃ before w rest, (∀ c ∈ before, isBlank c = true) ∧ isWord w = true ∧ line = before ++ '@' :: w :: rest

structure WellFormed (source : String) : Prop where
  lines : ∀ line ∈ sourceLines source, BlankOrComment line ∨ DirectiveLine line
  balanced : ∃ f, Balanced f (tokenize source)

/-! ### Lines -/

section
variable {line : List Char}

theorem directiveLine_iff : DirectiveLine line ↔ ∃ rest, strip line = '@' :: rest ∧ rest.takeWhile isWord ≠ [] := by
  constructor
  · rintro ⟨before, w, rest, hbefore, hw, rfl⟩
    have hplain : ∀ c ∈ ['@', w], isBlank c = false :=
      List.forall_mem_cons.mpr ⟨rfl, List.forall_mem_singleton.mpr (isBlank_of_isWord hw)⟩
    obtain ⟨more, hmore⟩ := prefix_strip hplain (List.cons_ne_nil _ _) rest
    have hnone : ∀ c ∈ ([] : List Char), isBlank c = true := nofun
    have hstrip := strip_padded hbefore hnone ('@' :: w :: rest)
    rw [List.append_nil] at hstrip
    refine ⟨w :: more, hstrip.trans hmore.symm, ?_⟩
    rw [List.takeWhile_cons_of_pos hw]
    exact List.cons_ne_nil _ _
  · rintro ⟨rest, hstrip, hname⟩
    obtain ⟨before, after, hblank, hline⟩ := exists_strip line
    cases rest with
    | nil => exact absurd rfl hname
    | cons w rest =>
      have hw : isWord w = true := by
        by_contra hw
        exact hname (List.takeWhile_cons_of_neg hw)
      refine ⟨before, w, rest ++ after, fun c hc => hblank c (List.mem_append_left after hc), hw, ?_⟩
      rw [hline, hstrip, List.append_assoc]
      rfl

/-- A line with a name is not reported. -/
theorem diagnostic?_read_of_marked {rest : List Char} (hmarked : strip line = '@' :: rest)
    (hname : rest.takeWhile isWord ≠ []) (n : Nat) : (Line.read line).diagnostic? n = none := by
  rw [Line.read, hmarked, Line.ofStripped]
  split
  · rfl
  · simp only [if_neg hname]
    rfl

theorem diagnostic?_read_eq_none {n : Nat} :
    (Line.read line).diagnostic? n = none ↔ BlankOrComment line ∨ DirectiveLine line := by
  rw [blankOrComment_iff, directiveLine_iff]
  rcases Line.read_cases line with ⟨hskipped, hread⟩ | ⟨hnot, hread | ⟨rest, hmarked, hname, hread⟩⟩
  · rw [hread]
    exact ⟨fun _ => Or.inl hskipped, fun _ => rfl⟩
  · refine ⟨fun h => ?_, fun h => ?_⟩
    · rw [hread] at h
      cases h
    · obtain ⟨rest, hmarked, hname⟩ := h.resolve_left hnot
      exact diagnostic?_read_of_marked hmarked hname n
  · rw [hread]
    exact ⟨fun _ => Or.inr ⟨rest, hmarked, hname⟩, fun _ => rfl⟩

theorem lineDiagnostics_eq_nil {source : String} : lineDiagnostics source = [] ↔
    ∀ line ∈ sourceLines source, BlankOrComment line ∨ DirectiveLine line := by
  have h : ∀ (ls : List (List Char)) (n : Nat), readings Line.diagnostic? n ls = [] ↔
      ∀ line ∈ ls, BlankOrComment line ∨ DirectiveLine line := by
    intro ls
    induction ls with
    | nil => exact fun _ => ⟨fun _ => nofun, fun _ => rfl⟩
    | cons line ls ih =>
      intro n
      rw [readings_cons, List.append_eq_nil_iff, Option.toList_eq_nil_iff, diagnostic?_read_eq_none, ih,
        List.forall_mem_cons]
  exact h (sourceLines source) 1

end

/-! ### Warnings -/

section
variable {d : Diagnostic} {ds : List Diagnostic} {tokens : List Token} {p : Parsed} {config : Config} {source : String}
  {c : Compiled}

theorem hasWarnings_append (ds es : List Diagnostic) : hasWarnings (ds ++ es) = (hasWarnings ds || hasWarnings es) :=
  List.any_append

theorem hasWarnings_of_calm (h : ∀ d ∈ ds, d.isWarning = false) : hasWarnings ds = false :=
  List.any_eq_false.mpr fun d hd => by simp [h d hd]

theorem Diagnostic.isWarning_of_isUnrecognized (h : d.issue.isUnrecognized = true) : d.isWarning = false := by
  rw [isWarning]
  cases hissue : d.issue with
  | unrecognizedDirective _ => rfl
  | _ =>
    rw [hissue] at h
    cases h

theorem Diagnostic.isWarning_of_isStructural (h : d.issue.isStructural = true) : d.isWarning = true := by
  rw [isWarning]
  cases hissue : d.issue with
  | unrecognizedDirective _ | unescapedContent _ _ | custom _ _ _ | unparsableLine _ | detachedDirective _ =>
    rw [hissue] at h
    cases h
  | _ => rfl

theorem hasWarnings_lineDiagnostics : hasWarnings (lineDiagnostics source) = false ↔ lineDiagnostics source = [] := by
  refine ⟨fun h => ?_, fun h => by rw [h]; rfl⟩
  by_contra hne
  obtain ⟨d, hd⟩ := List.exists_mem_of_ne_nil _ hne
  obtain ⟨⟨line, n⟩, -, hline⟩ := List.mem_filterMap.mp hd
  have hwarning : d.isWarning = true := by
    cases line with
    | unparsable text =>
      cases hline
      rfl
    | _ => cases hline
  exact List.any_eq_false.mp h d hd hwarning

theorem hasWarnings_renderDiagnostics (t : Tree) (escaped : Bool) :
    hasWarnings (t.renderDiagnostics escaped) = false :=
  hasWarnings_of_calm fun d hd => by
    obtain ⟨kind, value, hissue⟩ := Tree.issue_of_mem_renderDiagnostics hd
    rw [Diagnostic.isWarning, hissue]
    rfl

/-- Lenient parsing warns of what strict parsing refuses, and of nothing else. -/
theorem hasWarnings_parsed (h : parse false tokens = .ok p) :
    hasWarnings p.diagnostics = false ↔ ∃ f, Balanced f tokens := by
  obtain ⟨q, hq, hagrees⟩ := parse_agrees tokens
  cases h.symm.trans hq
  rw [← exists_parse_true_iff tokens]
  generalize parse true tokens = strict at hagrees
  cases hagrees with
  | accepted calm =>
    exact ⟨fun _ => ⟨p, rfl⟩, fun _ => hasWarnings_of_calm fun d hd => d.isWarning_of_isUnrecognized (calm d hd)⟩
  | refused earlier d later first calm structural =>
    refine ⟨fun hcalm => ?_, fun ⟨q, hq⟩ => by cases hq⟩
    have hd : d ∈ p.diagnostics := by
      rw [first]
      exact List.mem_append_right _ List.mem_cons_self
    exact absurd (d.isWarning_of_isStructural structural) (List.any_eq_false.mp hcalm d hd)

/-! ### Compiling -/

/-- What is refused is not balanced. -/
theorem not_balanced_of_error {strict : Bool} {e : StructureError} (h : parse strict tokens = .error e) :
    ¬ ∃ f, Balanced f tokens := by
  cases strict with
  | false =>
    obtain ⟨q, hq, -⟩ := parse_agrees tokens
    cases hq.symm.trans h
  | true =>
    rw [← exists_parse_true_iff tokens, h]
    rintro ⟨p, hp⟩
    cases hp

theorem hasWarnings_of_compile (h : compile config source = .ok c) :
    hasWarnings c.diagnostics = false ↔ WellFormed source := by
  obtain ⟨p, hp, rfl⟩ := exists_parsed_of_compile h
  simp only [Parsed.compiled, hasWarnings_append, Bool.or_eq_false_iff, hasWarnings_lineDiagnostics,
    lineDiagnostics_eq_nil, hasWarnings_parsed (parse_false_of_parse hp), hasWarnings_renderDiagnostics, and_true]
  exact ⟨fun h => ⟨h.1, h.2⟩, fun h => ⟨h.lines, h.balanced⟩⟩

theorem not_wellFormed_of_error {e : StructureError} (h : compile config source = .error e) : ¬ WellFormed source := by
  rw [compile] at h
  cases hp : parse config.strict (tokenize source) with
  | error e => exact fun hsource => not_balanced_of_error hp hsource.balanced
  | ok p =>
    rw [hp] at h
    cases h

theorem parse_false_eq (tokens : List Token) : parse false tokens = .ok (parseLenient tokens) := by
  obtain ⟨p, hp, -⟩ := parse_agrees tokens
  rw [parseLenient, hp]

theorem compile_false_eq (config : Config) (source : String) : compile { config with strict := false } source =
    .ok ((parseLenient (tokenize source)).compiled config source) := by
  rw [compile, parse_false_eq]
  rfl

/-- A well-formed source compiles to the same whether or not structural issues are refused. -/
theorem WellFormed.compile_eq (h : WellFormed source) (config : Config) :
    compile config source = .ok ((parseLenient (tokenize source)).compiled config source) := by
  obtain ⟨p, hp⟩ := (exists_parse_true_iff (tokenize source)).mpr h.balanced
  cases (parse_false_of_parse hp).symm.trans (parse_false_eq _)
  have hparse : parse config.strict (tokenize source) = .ok (parseLenient (tokenize source)) := by
    cases config.strict with
    | false => exact parse_false_eq _
    | true => exact hp
  rw [compile, hparse]
  rfl

theorem WellFormed.warnings_eq_nil (h : WellFormed source) (hcompile : compile config source = .ok c) :
    c.warnings = [] :=
  List.filter_eq_nil_iff.mpr (List.any_eq_false.mp ((hasWarnings_of_compile hcompile).mpr h))

instance (source : String) : Decidable (WellFormed source) :=
  decidable_of_iff (hasWarnings ((parseLenient (tokenize source)).compiled {} source).diagnostics = false)
    (hasWarnings_of_compile (compile_false_eq {} source))

end

end FormDirectives
