import FormDirectives.Proofs.Build.Fate

/-! The fates of the lines of a source. A line is skipped or unparsable, or it is a directive with the fate that the
    lines before it leave it. -/

namespace FormDirectives

namespace Scope

def lineFate (s : Scope) (l : Line × Nat) : Fate :=
  match l.1 with
  | .skipped => .skipped
  | .unparsable text => .unparsable text l.2
  | .directive name props => s.fate ⟨name, props, l.2⟩

def afterLine (s : Scope) (l : Line × Nat) : Scope :=
  match l.1.token? l.2 with
  | some t => s.after t
  | none => s

def lineFates (s : Scope) : List (Line × Nat) → List Fate
  | [] => []
  | l :: ls => s.lineFate l :: lineFates (s.afterLine l) ls

end Scope

/-- The directives among numbered lines. -/
def tokensOf (ls : List (Line × Nat)) : List Token := ls.filterMap fun l => l.1.token? l.2

/-- The scope that line `i` is read in, counted from zero. -/
def scopeAt (source : String) (i : Nat) : Scope := ((numberedLines source).take i).foldl Scope.afterLine .start

def lastScope (source : String) : Scope := scopeAt source (numberedLines source).length

def fates (source : String) : List Fate := Scope.start.lineFates (numberedLines source)

/-! ### Lists of lines -/

namespace Scope
variable {α : Type} {s : Scope} {l : Line × Nat}

theorem foldl_afterLine : ∀ (s : Scope) (ls : List (Line × Nat)),
    ls.foldl afterLine s = (tokensOf ls).foldl after s
  | _, [] => rfl
  | s, (.skipped, _) :: ls => foldl_afterLine s ls
  | s, (.unparsable _, _) :: ls => foldl_afterLine s ls
  | s, (.directive name props, n) :: ls => foldl_afterLine (s.after ⟨name, props, n⟩) ls

theorem getElem?_lineFates : ∀ (s : Scope) (ls : List (Line × Nat)) (i : Nat),
    (s.lineFates ls)[i]? = ls[i]?.map ((ls.take i).foldl afterLine s).lineFate
  | _, [], _ => rfl
  | _, _ :: _, 0 => rfl
  | s, l :: ls, i + 1 => getElem?_lineFates (s.afterLine l) ls i

/-- What only directives give is given by the fates of the directives. -/
theorem flatMap_lineFates {g : Fate → List α} (hskipped : g .skipped = [])
    (hunparsable : ∀ text number, g (.unparsable text number) = []) : ∀ (s : Scope) (ls : List (Line × Nat)),
    (s.lineFates ls).flatMap g = (s.fates (tokensOf ls)).flatMap g
  | _, [] => rfl
  | s, (.skipped, n) :: ls => by
    rw [lineFates, List.flatMap_cons, lineFate, hskipped]
    exact flatMap_lineFates hskipped hunparsable s ls
  | s, (.unparsable text, n) :: ls => by
    rw [lineFates, List.flatMap_cons, lineFate, hunparsable]
    exact flatMap_lineFates hskipped hunparsable s ls
  | s, (.directive name props, n) :: ls => by
    rw [lineFates, List.flatMap_cons, flatMap_lineFates hskipped hunparsable]
    rfl

theorem flatMap_lineReports : ∀ (s : Scope) (ls : List (Line × Nat)),
    (s.lineFates ls).flatMap Fate.lineReports = ls.filterMap fun l => l.1.diagnostic? l.2
  | _, [] => rfl
  | s, (.skipped, _) :: ls => flatMap_lineReports s ls
  | s, (.unparsable _, _) :: ls => congrArg (_ :: ·) (flatMap_lineReports s ls)
  | s, (.directive name props, n) :: ls => by
    rw [lineFates, List.flatMap_cons, lineFate, lineReports_fate, flatMap_lineReports]
    rfl

/-- A fate bears the number of its line, unless the line is skipped. -/
theorem lineFate_cases (s : Scope) (l : Line × Nat) : s.lineFate l = .skipped ∨ (s.lineFate l).line? = some (l.2 : Int) := by
  obtain ⟨_ | text | ⟨name, props⟩, number⟩ := l
  · exact Or.inl rfl
  · exact Or.inr rfl
  · exact Or.inr (line?_fate s _)

theorem isSome_afterLine (hs : s.isSome = true) (h : (s.lineFate l).isCalm = true) : (s.afterLine l).isSome = true := by
  obtain ⟨_ | text | ⟨name, props⟩, number⟩ := l
  · exact hs
  · exact hs
  · exact isSome_after hs h

theorem isSome_foldl_afterLine : ∀ {ls : List (Line × Nat)} {s : Scope}, s.isSome = true →
    (∀ f ∈ s.lineFates ls, f.isCalm = true) → (ls.foldl afterLine s).isSome = true
  | [], _, hs, _ => hs
  | l :: ls, s, hs, h => by
    have hl : (s.afterLine l).isSome = true := isSome_afterLine hs (h _ List.mem_cons_self)
    have hrest : ∀ f ∈ (s.afterLine l).lineFates ls, f.isCalm = true := fun f hf => h f (List.mem_cons_of_mem _ hf)
    rw [List.foldl_cons]
    exact isSome_foldl_afterLine hl hrest

theorem of_lineFate_attached {t : Token} (h : s.lineFate l = .attached t) (c : Container) : t.role ≠ .closer c := by
  obtain ⟨_ | text | ⟨name, props⟩, number⟩ := l
  · cases h
  · cases h
  · exact of_attached h c

theorem of_lineFate_closing {t opener : Token} (h : s.lineFate l = .closing t opener) :
    ∃ outer, s = some (opener :: outer) ∧ s.afterLine l = some outer := by
  obtain ⟨_ | text | ⟨name, props⟩, number⟩ := l
  · cases h
  · cases h
  · exact of_closing h

end Scope

/-! ### Sources -/

section
variable {source : String} {i : Nat} {l : Line × Nat} {f : Fate} {t opener : Token}

theorem scopeAt_succ (h : (numberedLines source)[i]? = some l) :
    scopeAt source (i + 1) = (scopeAt source i).afterLine l := by
  rw [scopeAt, List.take_add_one, h, List.foldl_append]
  rfl

theorem lastScope_eq (source : String) : lastScope source = (numberedLines source).foldl Scope.afterLine .start := by
  rw [lastScope, scopeAt, List.take_length]

theorem getElem?_fates (source : String) (i : Nat) :
    (fates source)[i]? = (numberedLines source)[i]?.map (scopeAt source i).lineFate :=
  Scope.getElem?_lineFates .start (numberedLines source) i

theorem exists_line (h : (fates source)[i]? = some f) :
    ∃ l, (numberedLines source)[i]? = some l ∧ l.2 = 1 + i ∧ f = (scopeAt source i).lineFate l := by
  rw [getElem?_fates, Option.map_eq_some_iff] at h
  obtain ⟨l, hl, rfl⟩ := h
  refine ⟨l, hl, ?_, rfl⟩
  rw [numberedLines, List.getElem?_zipIdx] at hl
  obtain ⟨line, -, rfl⟩ := Option.map_eq_some_iff.mp hl
  rfl

theorem line?_of_getElem? (h : (fates source)[i]? = some f) : f = .skipped ∨ f.line? = some ((1 + i : Nat) : Int) := by
  obtain ⟨l, -, hnumber, rfl⟩ := exists_line h
  rw [← hnumber]
  exact Scope.lineFate_cases _ l

theorem not_closer_of_attached (h : .attached t ∈ fates source) (c : Container) : t.role ≠ .closer c := by
  obtain ⟨i, hi⟩ := List.mem_iff_getElem?.mp h
  obtain ⟨l, -, -, hfate⟩ := exists_line hi
  exact Scope.of_lineFate_attached hfate.symm c

theorem scopes_of_closing (h : (fates source)[i]? = some (.closing t opener)) :
    ∃ outer, scopeAt source i = some (opener :: outer) ∧ scopeAt source (i + 1) = some outer := by
  obtain ⟨l, hl, -, hfate⟩ := exists_line h
  rw [scopeAt_succ hl]
  exact Scope.of_lineFate_closing hfate.symm

end

end FormDirectives
