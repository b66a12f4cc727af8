import FormDirectives.Compile
import FormDirectives.Proofs.Build.Draft
import FormDirectives.Proofs.Build.LineFate
import FormDirectives.Proofs.Token.Lines

/-! Every line of a source is accounted for. The nodes of a lenient compilation and its reports are those of the
    fates of its lines, in their order, but for the reports that can only be made in the end; and since the lines
    are numbered apart, what one line gives can be told from what the others do. -/

namespace FormDirectives

/-! ### Compilation -/

/-- The builder after the directives of the first `i` lines of a source. -/
def Reached (source : String) (i : Nat) (b : Builder) : Prop :=
  (tokensOf ((numberedLines source).take i)).foldlM (Builder.step false) {} = .ok b

/-- The report on an element without a rendering rule. -/
def Node.unrecognized? (n : Node) : Option Diagnostic :=
  match n.element with
  | .unknown directive => some { issue := .unrecognizedDirective directive, line := n.line }
  | _ => none

/-- The report is on the reading of line `n`, and not on what its node lacks in the end. -/
def Diagnostic.isOnLine (n : Nat) (d : Diagnostic) : Bool := d.line = some (n : Int) && !d.issue.isFinal

/-- How a lenient compilation accounts for the lines of its source. -/
structure Accounts (config : Config) (source : String) (c : Compiled) : Prop where
  /-- The fate of a line is decided by what is open when it is read. -/
  fate : ∀ i, (fates source)[i]? = (numberedLines source)[i]?.map (scopeAt source i).lineFate
  /-- What is open is what the builder has on its stack. -/
  stack : ∀ i, ∃ b, Reached source i b ∧ b.stack.map b.tree.nodeAt = (scopeAt source i).nodes
  closing : ∀ i t opener, (fates source)[i]? = some (.closing t opener) →
    ∃ outer, scopeAt source i = some (opener :: outer) ∧ scopeAt source (i + 1) = some outer
  nodes : c.tree.nodes = { element := .root } :: (fates source).flatMap Fate.nodes
  attached : ∀ t, .attached t ∈ fates source →
    t.node.kind = t.directive ∧ t.node.props = t.props ∧ t.node.line = t.line
  diagnostics : c.diagnostics = (fates source).flatMap Fate.lineReports ++ (fates source).flatMap Fate.buildReports ++
    ((lastScope source).unclosed ++ c.tree.renderDiagnostics config.escape)
  /-- The nodes and the reports of one line are those of its fate. -/
  line : ∀ i f, (fates source)[i]? = some f →
    (c.tree.nodes.filter fun n => n.line = ((i + 1 : Nat) : Int)) = f.nodes ∧
    c.diagnostics.filter (Diagnostic.isOnLine (i + 1)) = f.reports
  unrecognized : (c.diagnostics.filter fun d => d.issue.isUnrecognized) = c.tree.nodes.filterMap Node.unrecognized?
  /-- There are warnings exactly if a line is lost or a container is left open. -/
  calm : hasWarnings c.diagnostics = false ↔ (∀ f ∈ fates source, f.isCalm = true) ∧ lastScope source = some []

theorem Tree.issue_of_mem_renderDiagnostics {t : Tree} {escaped : Bool} {d : Diagnostic}
    (h : d ∈ t.renderDiagnostics escaped) : ∃ kind value, d.issue = .unescapedContent kind value := by
  unfold renderDiagnostics at h
  split at h
  · cases h
  · obtain ⟨n, -, hn⟩ := List.mem_filterMap.mp h
    obtain ⟨v, -, rfl⟩ := Option.map_eq_some_iff.mp hn
    exact ⟨n.kind, v, rfl⟩

/-- A directive without a rendering rule is reported, and its node is opaque. -/
theorem Fate.filter_isUnrecognized (f : Fate) (h : ∀ t c, f = .attached t → t.role ≠ .closer c) :
    (f.buildReports.filter fun d => d.issue.isUnrecognized) = f.nodes.filterMap Node.unrecognized? := by
  cases f with
  | attached t =>
    simp only [buildReports, nodes, List.filterMap_cons, List.filterMap_nil, Node.unrecognized?, Token.node,
      Token.element]
    cases hrole : t.role with
    | opener c => cases c <;> rfl
    | closer c => exact absurd hrole (h t c rfl)
    | field f =>
      cases f with
      | select => cases hsource : t.props.nonempty? "source" <;> simp only [Field.element, hsource] <;> rfl
      | _ => rfl
    | unknown => rfl
  | closing t opener =>
    simp only [buildReports]
    split <;> rfl
  | unmatched t rootOpen => cases rootOpen <;> rfl
  | _ => rfl

section
variable {config : Config} {source : String} {c : Compiled} {i : Nat} {f : Fate}

theorem exists_reached (source : String) (i : Nat) :
    ∃ b, Reached source i b ∧ b.stack.map b.tree.nodeAt = (scopeAt source i).nodes := by
  obtain ⟨b, hb, hdrafts, -⟩ := Builder.drafts_start.foldlM (tokensOf ((numberedLines source).take i))
  refine ⟨b, hb, ?_⟩
  rw [hdrafts.stack, Draft.scope_foldl, scopeAt, Scope.foldl_afterLine]
  rfl

theorem line_of_mem_nodes (h : (fates source)[i]? = some f) {n : Node} (hn : n ∈ f.nodes) :
    some n.line = some ((1 + i : Nat) : Int) := by
  rcases line?_of_getElem? h with rfl | hline
  · cases hn
  · exact (Fate.line_of_mem_nodes hn).trans hline

theorem line_of_mem_reports (h : (fates source)[i]? = some f) {d : Diagnostic} (hd : d ∈ f.reports) :
    d.line = some ((1 + i : Nat) : Int) := by
  rcases line?_of_getElem? h with rfl | hline
  · cases hd
  · exact (Fate.line_of_mem_reports hd).trans hline

theorem nodes_on_line (hnodes : c.tree.nodes = { element := .root } :: (fates source).flatMap Fate.nodes)
    (h : (fates source)[i]? = some f) :
    (c.tree.nodes.filter fun n => n.line = ((i + 1 : Nat) : Int)) = f.nodes := by
  have hfilter : (((fates source).flatMap Fate.nodes).filter fun n => some n.line = some ((1 + i : Nat) : Int)) =
      f.nodes := filter_flatMap_numbered (fun _ _ hf _ hn => line_of_mem_nodes hf hn) h
  simp only [Option.some.injEq, Nat.add_comm 1 i] at hfilter
  -- The root is on no line: they are counted from one.
  have hroot : (0 : Int) ≠ ((i + 1 : Nat) : Int) := by omega
  rw [hnodes, List.filter_cons_of_neg (by simpa using hroot), hfilter]

/-! ### Reports -/

theorem isFinal_of_mem_fates {d : Diagnostic} (h : d ∈ (fates source).flatMap Fate.lineReports ++
    (fates source).flatMap Fate.buildReports) : d.issue.isFinal = false := by
  rcases List.mem_append.mp h with h | h
  · obtain ⟨f, -, hd⟩ := List.mem_flatMap.mp h
    exact Fate.isFinal_of_mem_reports (List.mem_append_left _ hd)
  · obtain ⟨f, -, hd⟩ := List.mem_flatMap.mp h
    exact Fate.isFinal_of_mem_reports (List.mem_append_right _ hd)

theorem isFinal_of_mem_rest {t : Tree} {escaped : Bool} {d : Diagnostic}
    (h : d ∈ (lastScope source).unclosed ++ t.renderDiagnostics escaped) : d.issue.isFinal = true := by
  rcases List.mem_append.mp h with h | h
  · obtain ⟨kind, hissue⟩ := Scope.issue_of_mem_unclosed h
    rw [hissue]
    rfl
  · obtain ⟨kind, value, hissue⟩ := Tree.issue_of_mem_renderDiagnostics h
    rw [hissue]
    rfl

section
variable (hdiagnostics : c.diagnostics = (fates source).flatMap Fate.lineReports ++
  (fates source).flatMap Fate.buildReports ++ ((lastScope source).unclosed ++ c.tree.renderDiagnostics config.escape))
include hdiagnostics

theorem filter_not_isFinal : (c.diagnostics.filter fun d => !d.issue.isFinal) =
    (fates source).flatMap Fate.lineReports ++ (fates source).flatMap Fate.buildReports := by
  rw [hdiagnostics, List.filter_append, List.filter_eq_self.mpr, List.filter_eq_nil_iff.mpr, List.append_nil]
  · intro d hd
    rw [isFinal_of_mem_rest hd]
    exact Bool.false_ne_true
  · intro d hd
    rw [isFinal_of_mem_fates hd]
    rfl

theorem reports_on_line (h : (fates source)[i]? = some f) :
    c.diagnostics.filter (Diagnostic.isOnLine (i + 1)) = f.reports := by
  have hsplit : c.diagnostics.filter (Diagnostic.isOnLine (i + 1)) =
      (c.diagnostics.filter fun d => !d.issue.isFinal).filter fun d => d.line = some ((1 + i : Nat) : Int) := by
    rw [List.filter_filter, Nat.add_comm 1 i]
    rfl
  have hline := filter_flatMap_numbered (fun _ _ hf d hd => line_of_mem_reports hf (List.mem_append_left _ hd)) h
  have hbuild := filter_flatMap_numbered (fun _ _ hf d hd => line_of_mem_reports hf (List.mem_append_right _ hd)) h
  rw [hsplit, filter_not_isFinal hdiagnostics, List.filter_append, hline, hbuild]
  rfl

theorem reports_unrecognized (hnodes : c.tree.nodes = { element := .root } :: (fates source).flatMap Fate.nodes) :
    (c.diagnostics.filter fun d => d.issue.isUnrecognized) = c.tree.nodes.filterMap Node.unrecognized? := by
  have hsplit : (c.diagnostics.filter fun d => d.issue.isUnrecognized) =
      (c.diagnostics.filter fun d => !d.issue.isFinal).filter fun d => d.issue.isUnrecognized := by
    -- What is found in the end is never an unrecognized directive.
    rw [List.filter_filter]
    refine List.filter_congr fun d _ => ?_
    cases d.issue <;> rfl
  have hline : ((fates source).flatMap Fate.lineReports).filter (fun d => d.issue.isUnrecognized) = [] := by
    refine List.filter_eq_nil_iff.mpr fun d hd => ?_
    obtain ⟨f, -, hd⟩ := List.mem_flatMap.mp hd
    cases f with
    | unparsable text number =>
      rw [List.mem_singleton.mp hd]
      exact Bool.false_ne_true
    | _ => cases hd
  rw [hsplit, filter_not_isFinal hdiagnostics, List.filter_append, hline, List.nil_append, List.filter_flatMap, hnodes,
    List.filterMap_cons_none rfl, List.filterMap_flatMap]
  refine List.flatMap_congr fun f hf => f.filter_isUnrecognized fun t c ht => ?_
  exact not_closer_of_attached (ht ▸ hf) c

theorem hasWarnings_eq_false :
    hasWarnings c.diagnostics = false ↔ (∀ f ∈ fates source, f.isCalm = true) ∧ lastScope source = some [] := by
  have hfates : (∀ d ∈ (fates source).flatMap Fate.lineReports ++ (fates source).flatMap Fate.buildReports,
      d.isWarning = false) ↔ ∀ f ∈ fates source, f.isCalm = true := by
    simp only [Fate.isCalm_iff, Fate.reports, List.forall_mem_append, List.forall_mem_flatMap, forall_and]
  have hunclosed : (∀ d ∈ (lastScope source).unclosed, d.isWarning = false) ↔ (lastScope source).unclosed = [] := by
    refine ⟨fun h => List.eq_nil_iff_forall_not_mem.mpr fun d hd => ?_, fun h => by simp [h]⟩
    obtain ⟨kind, hissue⟩ := Scope.issue_of_mem_unclosed hd
    have hwarning := h d hd
    rw [Diagnostic.isWarning, hissue] at hwarning
    cases hwarning
  have hrender : ∀ d ∈ c.tree.renderDiagnostics config.escape, d.isWarning = false := fun d hd => by
    obtain ⟨kind, value, hissue⟩ := Tree.issue_of_mem_renderDiagnostics hd
    rw [Diagnostic.isWarning, hissue]
    rfl
  -- A root that was closed leaves nothing open either, but then its closer was warned of.
  have hopen (hcalm : ∀ f ∈ fates source, f.isCalm = true) : (lastScope source).isSome = true := by
    rw [lastScope_eq]
    exact Scope.isSome_foldl_afterLine rfl hcalm
  rw [hasWarnings, hdiagnostics, List.any_eq_false]
  simp only [Bool.not_eq_true]
  rw [List.forall_mem_append, hfates, List.forall_mem_append, hunclosed, and_iff_left hrender]
  exact and_congr_right fun hcalm => Scope.unclosed_eq_nil (hopen hcalm)

end

/-- A lenient compilation fails on no source, and it accounts for every line. -/
theorem lines_accounted (config : Config) (source : String) :
    ∃ c, compile { config with strict := false } source = .ok c ∧ Accounts { config with strict := false } source c := by
  obtain ⟨p, hp, -, hnodes, hreports⟩ := parse_false (tokenize source)
  have hfates {α : Type} {g : Fate → List α} (hskipped : g .skipped = [])
      (hunparsable : ∀ text number, g (.unparsable text number) = []) :
      (Scope.start.fates (tokenize source)).flatMap g = (fates source).flatMap g :=
    (Scope.flatMap_lineFates hskipped hunparsable _ _).symm
  have hnodes : p.tree.nodes = { element := .root } :: (fates source).flatMap Fate.nodes := by
    rw [hnodes, hfates rfl fun _ _ => rfl]
  have hdiagnostics : (p.compiled { config with strict := false } source).diagnostics =
      (fates source).flatMap Fate.lineReports ++ (fates source).flatMap Fate.buildReports ++
        ((lastScope source).unclosed ++ p.tree.renderDiagnostics config.escape) := by
    rw [Parsed.compiled, hreports, hfates rfl fun _ _ => rfl, fates, Scope.flatMap_lineReports, lastScope_eq,
      Scope.foldl_afterLine]
    simp only [List.append_assoc]
    rfl
  refine ⟨p.compiled { config with strict := false } source, ?_, ?_⟩
  · rw [compile, hp]
    rfl
  · exact {
      fate := getElem?_fates source
      stack := exists_reached source
      closing := fun _ _ _ h => scopes_of_closing h
      nodes := hnodes
      attached := fun t h => t.node_fields (not_closer_of_attached h)
      diagnostics := hdiagnostics
      line := fun _ _ h => ⟨nodes_on_line hnodes h, reports_on_line hdiagnostics h⟩
      unrecognized := reports_unrecognized hdiagnostics hnodes
      calm := hasWarnings_eq_false hdiagnostics }

end

end FormDirectives
