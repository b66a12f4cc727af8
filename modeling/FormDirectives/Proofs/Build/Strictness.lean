import FormDirectives.Compile

/-! Strict and lenient building compared. Both take the same steps until one of them finds something structural;
    there strict building stops, and the lenient one only adds to its reports from then on. So the report that
    strict building stops at is the first structural one of the lenient run, and before it stand only
    unrecognized directives: to detach a directive the root must have been closed, which is structural itself. -/

namespace FormDirectives

/-- What strict building gives where lenient building gives `lenient` with `reports`. -/
inductive Agrees {α : Type} (reports : List Diagnostic) (lenient : α) : Except StructureError α → Prop
  | accepted (calm : ∀ d ∈ reports, d.issue.isUnrecognized = true) : Agrees reports lenient (.ok lenient)
  | refused (earlier : List Diagnostic) (d : Diagnostic) (later : List Diagnostic)
      (first : reports = earlier ++ d :: later) (calm : ∀ d ∈ earlier, d.issue.isUnrecognized = true)
      (structural : d.issue.isStructural = true) :
      Agrees reports lenient (.error { diagnostic := d, earlier })

theorem Agrees.map {α β : Type} {reports : List Diagnostic} {lenient : α} {strict : Except StructureError α}
    (h : Agrees reports lenient strict) (f : α → β) : Agrees reports (f lenient) (strict.map f) := by
  cases h with
  | accepted calm => exact .accepted calm
  | refused earlier d later first calm structural => exact .refused earlier d later first calm structural

namespace Builder
variable {b l : Builder} {d : Diagnostic} {t : Token}

/-- The root is open and nothing but unrecognized directives has been reported. -/
structure Calm (b : Builder) : Prop where
  rooted : b.stack ≠ []
  reports : ∀ d ∈ b.diagnostics, d.issue.isUnrecognized = true

/-- An action that fails only in strict building, on the first structural report it makes. -/
structure Follows (act : Bool → Builder → Except StructureError Builder) : Prop where
  lenient : ∀ b, ∃ l, act false b = .ok l ∧ b.diagnostics <+: l.diagnostics
  strict : ∀ b l, b.Calm → act false b = .ok l →
    Agrees l.diagnostics l (act true b) ∧ (act true b = .ok l → l.stack ≠ [])

namespace Follows
variable {act next : Bool → Builder → Except StructureError Builder}

theorem done : Follows fun _ b => .ok b where
  lenient b := ⟨b, rfl, List.prefix_refl _⟩
  strict b l hb h := by
    cases h
    exact ⟨.accepted hb.reports, fun _ => hb.rooted⟩

theorem bind (hact : Follows act) (hnext : Follows next) : Follows fun strict b => act strict b >>= next strict where
  lenient b := by
    obtain ⟨m, hm, hbm⟩ := hact.lenient b
    obtain ⟨l, hl, hml⟩ := hnext.lenient m
    refine ⟨l, ?_, hbm.trans hml⟩
    show act false b >>= next false = .ok l
    rw [hm]
    exact hl
  strict b l hb h := by
    obtain ⟨m, hm, -⟩ := hact.lenient b
    have hl : next false m = .ok l := by
      rw [hm] at h
      exact h
    obtain ⟨hagrees, hrooted⟩ := hact.strict b m hb hm
    show Agrees l.diagnostics l (act true b >>= next true) ∧ (act true b >>= next true = .ok l → l.stack ≠ [])
    generalize hs : act true b = s at hagrees hrooted ⊢
    cases hagrees with
    | accepted calm => exact hnext.strict m l ⟨hrooted rfl, calm⟩ hl
    | refused earlier d later first calm structural =>
      -- The lenient run goes on, and what it reported first stays first.
      obtain ⟨l', hl', more, hmore⟩ := hnext.lenient m
      rw [hl] at hl'
      cases hl'
      refine ⟨.refused earlier d (later ++ more) ?_ calm structural, fun h => by cases h⟩
      rw [← hmore, first, List.append_assoc, List.cons_append]

theorem foldlM {α : Type} {act : Bool → Builder → α → Except StructureError Builder} : ∀ {xs : List α},
    (∀ x ∈ xs, Follows fun strict b => act strict b x) → Follows fun strict b => xs.foldlM (act strict) b
  | [], _ => done
  | x :: xs, h => by
    simp only [List.foldlM_cons]
    exact (h x List.mem_cons_self).bind (foldlM fun y hy => h y (List.mem_cons_of_mem x hy))

end Follows

/-! ### Steps -/

theorem follows_refuse (hd : d.issue.isStructural = true) : Follows fun strict b => b.refuse strict d where
  lenient b := ⟨b.report d, rfl, List.prefix_append _ _⟩
  strict b l hb h := by
    cases h
    exact ⟨.refused b.diagnostics d [] rfl hb.reports hd, fun h => by cases h⟩

theorem isStructural_of_closeIssue? {c : Container} (h : b.closeIssue? t c = some d) :
    d.issue.isStructural = true := by
  unfold closeIssue? at h
  split at h
  · cases h
    rfl
  · cases h
    rfl
  · simp only at h
    split at h
    · cases h
    · cases h
      rfl

/-- A closer without an issue closes a container, so the root stays open. -/
theorem tail_ne_nil_of_closeIssue? {c : Container} (h : b.closeIssue? t c = none) : b.stack.tail ≠ [] := by
  unfold closeIssue? at h
  split at h
  · cases h
  · cases h
  · next hne hstack =>
    rw [hstack]
    exact hne

theorem follows_close (t : Token) (c : Container) : Follows fun strict b => b.close strict t c where
  lenient b := by
    unfold close
    split
    · exact ⟨_, rfl, List.prefix_refl _⟩
    · exact ⟨_, rfl, List.prefix_append _ _⟩
  strict b l hb h := by
    unfold close at h ⊢
    split at h
    · next hissue =>
      cases h
      exact ⟨.accepted hb.reports, fun _ => tail_ne_nil_of_closeIssue? hissue⟩
    · next d hissue =>
      cases h
      exact ⟨.refused b.diagnostics d [] rfl hb.reports (isStructural_of_closeIssue? hissue), fun h => by cases h⟩

theorem prefix_append (b : Builder) (t : Token) : b.diagnostics <+: (b.append t).diagnostics := by
  unfold append
  split
  · exact List.prefix_append _ _
  · simp only [addNode]
    split
    · exact List.prefix_append _ _
    · exact List.prefix_refl _

theorem Calm.append (hb : b.Calm) (t : Token) : (b.append t).Calm := by
  obtain ⟨top, below, hstack⟩ := List.exists_cons_of_ne_nil hb.rooted
  refine ⟨?_, fun d hd => ?_⟩
  · simp only [Builder.append, hstack, addNode]
    split <;> simp [report, apply_ite, hstack]
  · simp only [Builder.append, hstack, addNode] at hd
    split at hd
    · rcases List.mem_append.mp hd with hd | hd
      · exact hb.reports d hd
      · rw [List.mem_singleton.mp hd]
        rfl
    · exact hb.reports d hd

theorem follows_step (t : Token) : Follows fun strict b => b.step strict t := by
  unfold step
  split
  · exact follows_close t _
  · refine ⟨fun b => ⟨_, rfl, b.prefix_append t⟩, fun b l hb h => ?_⟩
    cases h
    exact ⟨.accepted (hb.append t).reports, fun _ => (hb.append t).rooted⟩

theorem follows_finish : Follows fun strict b => b.finish strict := by
  have refusals (b : Builder) : Follows fun strict b' => b.unclosed.foldlM (refuse strict) b' :=
    .foldlM fun d hd => follows_refuse (by
      obtain ⟨i, -, rfl⟩ := List.mem_map.mp hd
      rfl)
  exact ⟨fun b => (refusals b).lenient b, fun b => (refusals b).strict b⟩

end Builder

/-! ### Parsing -/

theorem parse_agrees (tokens : List Token) :
    ∃ p, parse false tokens = .ok p ∧ Agrees p.diagnostics p (parse true tokens) := by
  have follows := (Builder.Follows.foldlM fun t (_ : t ∈ tokens) => Builder.follows_step t).bind Builder.follows_finish
  obtain ⟨l, hl, -⟩ := follows.lenient {}
  obtain ⟨hagrees, -⟩ := follows.strict {} l ⟨by simp, by simp⟩ hl
  refine ⟨l.parsed, ?_, hagrees.map Builder.parsed⟩
  rw [parse, hl]
  rfl

/-- What is parsed at all is parsed leniently. -/
theorem parse_false_of_parse {strict : Bool} {tokens : List Token} {p : Parsed} (h : parse strict tokens = .ok p) :
    parse false tokens = .ok p := by
  cases strict with
  | false => exact h
  | true =>
    obtain ⟨l, hl, hagrees⟩ := parse_agrees tokens
    rw [h] at hagrees
    cases hagrees
    exact hl

theorem exists_parsed_of_compile {config : Config} {source : String} {c : Compiled} (h : compile config source = .ok c) :
    ∃ p, parse config.strict (tokenize source) = .ok p ∧ c = p.compiled config source := by
  rw [compile] at h
  cases hp : parse config.strict (tokenize source) with
  | error e =>
    rw [hp] at h
    cases h
  | ok p =>
    rw [hp] at h
    exact ⟨p, rfl, (Except.ok.inj h).symm⟩

/-- Strict parsing, and compiling with it, gives what lenient parsing gives if that reports nothing structural,
    and otherwise stops at its first structural report with the reports before it. -/
theorem strict_agrees_with_lenient :
    (∀ tokens, ∃ p, parse false tokens = .ok p ∧ Agrees p.diagnostics p (parse true tokens)) ∧
    ∀ (config : Config) (source : String), ∃ p c, parse false (tokenize source) = .ok p ∧
      compile { config with strict := false } source = .ok c ∧
      Agrees p.diagnostics c (compile { config with strict := true } source) := by
  refine ⟨parse_agrees, fun config source => ?_⟩
  obtain ⟨p, hp, hagrees⟩ := parse_agrees (tokenize source)
  refine ⟨p, p.compiled config source, hp, ?_, hagrees.map (Parsed.compiled config source)⟩
  rw [compile, hp]
  rfl

end FormDirectives
