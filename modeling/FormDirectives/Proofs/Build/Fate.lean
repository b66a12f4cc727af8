import FormDirectives.Proofs.Build.Grammar

/-! What becomes of a directive in lenient building. It depends on nothing but which containers were opened and
    closed before it (`Scope`): a directive becomes a node as long as the root is open, a closer closes one
    container, and what finds nothing open is reported. The fate of a directive says which nodes and which reports
    it gives. -/

namespace FormDirectives

/-- The openers of the open containers, innermost first; nothing once the root was closed. -/
abbrev Scope := Option (List Token)

/-- Whether a closer is of the kind of the container that an opener opens. -/
def Token.fits (t opener : Token) : Bool :=
  match t.role, opener.role with
  | .closer c, .opener d => c = d
  | _, _ => false

inductive Fate
  /-- A line that is blank or a comment. -/
  | skipped
  /-- A line that is no directive. -/
  | unparsable (text : String) (number : Nat)
  /-- A directive that is read while the root is open. -/
  | attached (t : Token)
  /-- A directive that is read after the root was closed. -/
  | detached (t : Token)
  /-- A closer, with the opener of the container that it closes. -/
  | closing (t opener : Token)
  /-- A closer that finds no container open, and perhaps not even the root. -/
  | unmatched (t : Token) (rootOpen : Bool)
  deriving DecidableEq

namespace Scope

def start : Scope := some []

def fate (s : Scope) (t : Token) : Fate :=
  match t.role with
  | .closer _ =>
    match s with
    | some (opener :: _) => .closing t opener
    | some [] => .unmatched t true
    | none => .unmatched t false
  | _ =>
    match s with
    | some _ => .attached t
    | none => .detached t

/-- The scope after one more directive. A closer takes the innermost container away, or else the root. -/
def after (s : Scope) (t : Token) : Scope :=
  match t.role with
  | .opener _ => s.map (t :: ·)
  | .closer _ => s.bind List.tail?
  | _ => s

def fates (s : Scope) : List Token → List Fate
  | [] => []
  | t :: ts => s.fate t :: fates (s.after t) ts

def nodes : Scope → List Node
  | none => []
  | some openers => openers.map Token.node ++ [{ element := .root }]

/-- The reports on the containers that are open at the end, outermost first. -/
def unclosed : Scope → List Diagnostic
  | none => []
  | some openers => openers.reverse.map fun t => { issue := .unclosedContainer t.directive, line := t.line }

end Scope

namespace Fate

def nodes : Fate → List Node
  | attached t => [t.node]
  | _ => []

def lineReports : Fate → List Diagnostic
  | unparsable text number => [{ issue := .unparsableLine text, line := some number }]
  | _ => []

def buildReports : Fate → List Diagnostic
  | attached t =>
    if t.role = .unknown then [{ issue := .unrecognizedDirective t.directive, line := t.line }] else []
  | detached t => [{ issue := .detachedDirective t.directive, line := t.line }]
  | closing t opener =>
    if t.fits opener then []
    else [{ issue := .mismatchedClose t.directive opener.directive opener.line, line := t.line }]
  | unmatched t true => [{ issue := .closesRoot t.directive, line := t.line }]
  | unmatched t false => [{ issue := .closesNothing t.directive, line := t.line }]
  | _ => []

def reports (f : Fate) : List Diagnostic := f.lineReports ++ f.buildReports

def line? : Fate → Option Int
  | skipped => none
  | unparsable _ number => some number
  | attached t | detached t | closing t _ | unmatched t _ => some t.line

/-- Nothing of the line is lost: it has nothing to say, or it is a node, or it closes what it says it closes. -/
def isCalm : Fate → Bool
  | skipped | attached _ => true
  | closing t opener => t.fits opener
  | _ => false

end Fate

/-- The issues that are found when all lines are read. -/
def Issue.isFinal : Issue → Bool
  | unclosedContainer _ | unescapedContent .. => true
  | _ => false

/-- A line is reported at most once, with its number, and it is a warning if something of it is lost. -/
theorem Fate.reports_cases (f : Fate) : (f.reports = [] ∧ f.isCalm = true) ∨
    ∃ issue, f.reports = [{ issue, line := f.line? }] ∧ issue.isFinal = false ∧
      (issue.severity = .warning ↔ f.isCalm = false) := by
  cases f with
  | skipped => exact Or.inl ⟨rfl, rfl⟩
  | unparsable text number => exact Or.inr ⟨_, rfl, rfl, by simp [Issue.severity, isCalm]⟩
  | attached t =>
    by_cases hrole : t.role = .unknown
    · exact Or.inr ⟨.unrecognizedDirective t.directive, by simp [reports, lineReports, buildReports, hrole, line?], rfl,
        by simp [Issue.severity, isCalm]⟩
    · exact Or.inl ⟨by simp [reports, lineReports, buildReports, hrole], rfl⟩
  | detached t => exact Or.inr ⟨_, rfl, rfl, by simp [Issue.severity, isCalm]⟩
  | closing t opener =>
    cases hfits : t.fits opener with
    | true => exact Or.inl ⟨by simp [reports, lineReports, buildReports, hfits], hfits⟩
    | false =>
      exact Or.inr ⟨.mismatchedClose t.directive opener.directive opener.line,
        by simp [reports, lineReports, buildReports, hfits, line?], rfl, by simp [Issue.severity, isCalm, hfits]⟩
  | unmatched t rootOpen =>
    cases rootOpen <;> exact Or.inr ⟨_, rfl, rfl, by simp [Issue.severity, isCalm]⟩

namespace Fate
variable {f : Fate} {d : Diagnostic} {n : Node}

theorem isFinal_of_mem_reports (h : d ∈ f.reports) : d.issue.isFinal = false := by
  rcases f.reports_cases with ⟨hnone, -⟩ | ⟨issue, hone, hfinal, -⟩
  · rw [hnone] at h
    cases h
  · rw [hone] at h
    rw [List.mem_singleton.mp h]
    exact hfinal

theorem line_of_mem_reports (h : d ∈ f.reports) : d.line = f.line? := by
  rcases f.reports_cases with ⟨hnone, -⟩ | ⟨issue, hone, -⟩
  · rw [hnone] at h
    cases h
  · rw [hone] at h
    rw [List.mem_singleton.mp h]

theorem isCalm_iff : f.isCalm = true ↔ ∀ d ∈ f.reports, d.isWarning = false := by
  rcases f.reports_cases with ⟨hnone, hcalm⟩ | ⟨issue, hone, -, hwarning⟩
  · simp [hnone, hcalm]
  · simp [hone, Diagnostic.isWarning, hwarning]

theorem line_of_mem_nodes (h : n ∈ f.nodes) : some n.line = f.line? := by
  cases f with
  | attached t => rw [List.mem_singleton.mp h]; rfl
  | _ => cases h

end Fate

namespace Scope
variable {s : Scope} {t u : Token}

theorem nodes_fate_of_closer {c : Container} (ht : t.role = .closer c) (s : Scope) : (s.fate t).nodes = [] := by
  simp only [fate, ht]
  split <;> rfl

theorem fate_some (ht : ∀ c, t.role ≠ .closer c) (openers : List Token) :
    Scope.fate (some openers) t = .attached t := by
  unfold fate
  split
  · next c hc => exact absurd hc (ht c)
  · rfl

theorem fate_none (ht : ∀ c, t.role ≠ .closer c) : Scope.fate none t = .detached t := by
  unfold fate
  split
  · next c hc => exact absurd hc (ht c)
  · rfl

theorem lineReports_fate (s : Scope) (t : Token) : (s.fate t).lineReports = [] := by
  unfold fate
  split <;> split <;> rfl

theorem line?_fate (s : Scope) (t : Token) : (s.fate t).line? = some t.line := by
  unfold fate
  split <;> split <;> rfl

theorem of_attached (h : s.fate u = .attached t) (c : Container) : t.role ≠ .closer c := by
  unfold fate at h
  split at h
  · split at h <;> cases h
  · next hrole =>
    split at h <;> cases h
    exact fun hc => hrole c hc

theorem of_closing {opener : Token} (h : s.fate u = .closing t opener) :
    ∃ outer, s = some (opener :: outer) ∧ s.after u = some outer := by
  unfold fate at h
  split at h
  · next c hrole =>
    split at h <;> cases h
    next outer => exact ⟨outer, rfl, by simp [after, hrole]⟩
  · split at h <;> cases h

/-- The root is not closed as long as nothing is lost. -/
theorem isSome_after (hs : s.isSome = true) (h : (s.fate t).isCalm = true) : (s.after t).isSome = true := by
  obtain ⟨openers, rfl⟩ := Option.isSome_iff_exists.mp hs
  unfold after
  split
  · rfl
  · next c hrole =>
    cases openers with
    | nil =>
      -- Only the root is open, so the closer is unmatched.
      simp only [fate, hrole] at h
      cases h
    | cons opener outer => rfl
  · rfl

theorem unclosed_eq_nil (hs : s.isSome = true) : s.unclosed = [] ↔ s = some [] := by
  obtain ⟨openers, rfl⟩ := Option.isSome_iff_exists.mp hs
  simp [unclosed]

theorem issue_of_mem_unclosed {d : Diagnostic} (h : d ∈ s.unclosed) : ∃ kind, d.issue = .unclosedContainer kind := by
  cases s with
  | none => cases h
  | some openers =>
    obtain ⟨t, -, rfl⟩ := List.mem_map.mp h
    exact ⟨t.directive, rfl⟩

end Scope

end FormDirectives
