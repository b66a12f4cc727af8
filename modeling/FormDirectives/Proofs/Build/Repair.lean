import FormDirectives.Proofs.Build.Acceptance
import FormDirectives.Proofs.Build.Strictness

/-! Lenient building is strict building of a repaired document. The repair looks at nothing but which directives
    open and which close: a closer becomes the one for the container it closes, a closer that finds nothing open
    ends the document, and what is open at the end is closed. Both buildings then go through the same trees; the
    lenient one reports more, but of unrecognized directives the same. -/

namespace FormDirectives

/-- The repaired rest of a document in which `opened` are the open containers, innermost first. -/
def repair : List Container → List Token → List Token
  | opened, [] => opened.map fun c => { directive := c.closer }
  | opened, t :: rest =>
    match t.role with
    | .opener c => t :: repair (c :: opened) rest
    | .closer _ =>
      match opened with
      | [] => []
      | c :: opened => { t with directive := c.closer } :: repair opened rest
    | _ => t :: repair opened rest

namespace Builder
variable {l b : Builder} {s : Spine Placed} {t : Token} {c : Container} {opened : List Container}

/-- The reports that repairing does not take away. -/
def kept (b : Builder) : List Diagnostic := b.diagnostics.filter (·.issue.isUnrecognized)

/-- A lenient closer pops the stack, and reports nothing that is kept. -/
theorem close_lenient (b : Builder) (t : Token) (c : Container) : ∃ b', b.close false t c = .ok b' ∧
    b'.stack = b.stack.tail ∧ b'.tree = b.tree ∧ b'.kept = b.kept := by
  refine ⟨_, b.close_false t c, rfl, rfl, ?_⟩
  have hnone : (b.closeIssue? t c).toList.filter (·.issue.isUnrecognized) = [] := by
    rw [List.filter_eq_nil_iff]
    intro d hd
    rw [Issue.isUnrecognized_of_isStructural (isStructural_of_closeIssue? (Option.mem_toList.mp hd))]
    exact Bool.false_ne_true
  rw [kept, List.filter_append, hnone, List.append_nil]
  rfl

/-- The containers that are open in a builder. -/
def Opens (opened : List Container) (b : Builder) : Prop :=
  ∃ s, b.Carries s ∧ s.above.map (·.1.2.role) = opened.map Role.opener

theorem Opens.close (h : Opens (c :: opened) b) (ht : t.directive = c.closer) :
    b.step true t = .ok { b with stack := b.stack.tail } ∧ Opens opened { b with stack := b.stack.tail } := by
  obtain ⟨⟨done, _ | ⟨⟨a, before⟩, above⟩⟩, hs, hopened⟩ := h
  · cases hopened
  · obtain ⟨ha, hopened⟩ := List.cons.inj hopened
    exact ⟨hs.step_fitting (Token.role_eq_closer.mpr ht) ha true, _, hs.leave, hopened⟩

/-- A lenient builder, and a strict one on the repaired document. -/
structure Alongside (opened : List Container) (l b : Builder) : Prop where
  opens : Opens opened b
  tree : l.tree = b.tree
  stack : l.stack = b.stack
  reports : b.diagnostics = l.kept

theorem alongside_start : Alongside [] {} {} where
  opens := ⟨.empty, carries_start, rfl⟩
  tree := rfl
  stack := rfl
  reports := rfl

namespace Alongside

theorem append_agrees (h : Alongside opened l b) (t : Token) : (l.append t).tree = (b.append t).tree ∧
    (l.append t).stack = (b.append t).stack ∧ (b.append t).diagnostics = (l.append t).kept := by
  obtain ⟨s, hs, -⟩ := h.opens
  obtain ⟨below, hstack⟩ := hs.stack_eq
  have hlstack := h.stack.trans hstack
  simp only [append, hstack, hlstack]
  split <;> simp [addNode, report, kept, h.tree, h.stack, h.reports, Issue.isUnrecognized]

theorem leaf (h : Alongside opened l b) (ht : ∀ c, t.role ≠ .opener c) :
    Alongside opened (l.append t) (b.append t) := by
  obtain ⟨htree, hstack, hreports⟩ := h.append_agrees t
  obtain ⟨s, hs, hopened⟩ := h.opens
  exact ⟨⟨_, hs.append_leaf ht, hopened⟩, htree, hstack, hreports⟩

theorem opener (h : Alongside opened l b) (ht : t.role = .opener c) :
    Alongside (c :: opened) (l.append t) (b.append t) := by
  obtain ⟨htree, hstack, hreports⟩ := h.append_agrees t
  obtain ⟨s, hs, hopened⟩ := h.opens
  refine ⟨⟨_, hs.append_opener ht, ?_⟩, htree, hstack, hreports⟩
  rw [Spine.enter, List.map_cons, List.map_cons, ht, hopened]

/-- The strict builder is given the closer that fits and reports nothing; the lenient one may report a mismatch. -/
theorem closer (h : Alongside (c :: opened) l b) {d : Container} (ht : t.role = .closer d) :
    ∃ l' b', l.step false t = .ok l' ∧ b.step true { t with directive := c.closer } = .ok b' ∧
      Alongside opened l' b' := by
  obtain ⟨hstep, hopens⟩ := h.opens.close (t := { t with directive := c.closer }) rfl
  obtain ⟨l', hl', hstack, htree, hkept⟩ := l.close_lenient t d
  rw [← step_closer ht] at hl'
  have htail : l.stack.tail = b.stack.tail := congrArg List.tail h.stack
  exact ⟨l', _, hl', hstep, hopens, htree.trans h.tree, hstack.trans htail, h.reports.trans hkept.symm⟩

end Alongside

/-! ### Runs -/

theorem foldlM_cons_of_step {strict : Bool} {b' : Builder} (h : b.step strict t = .ok b') (ts : List Token) :
    (t :: ts).foldlM (step strict) b = ts.foldlM (step strict) b' := by
  rw [List.foldlM_cons, h]
  rfl

/-- Once the root is closed, lenient building only reports. -/
theorem foldlM_of_closed : ∀ (ts : List Token) {l : Builder}, l.stack = [] → ∃ l', ts.foldlM (step false) l = .ok l' ∧
    l'.stack = [] ∧ l'.tree = l.tree ∧ l'.kept = l.kept
  | [], l, h => ⟨l, rfl, h, rfl, rfl⟩
  | t :: ts, l, h => by
    obtain ⟨m, hm, hstack, htree, hkept⟩ : ∃ m, l.step false t = .ok m ∧ m.stack = [] ∧ m.tree = l.tree ∧
        m.kept = l.kept := by
      unfold step
      split
      · next c _ =>
        obtain ⟨m, hm, hstack, hrest⟩ := l.close_lenient t c
        exact ⟨m, hm, hstack.trans (congrArg List.tail h), hrest⟩
      · refine ⟨_, rfl, ?_⟩
        simp [append, h, report, kept, Issue.isUnrecognized]
    obtain ⟨l', hl', hstack', htree', hkept'⟩ := foldlM_of_closed ts hstack
    refine ⟨l', ?_, hstack', htree'.trans htree, hkept'.trans hkept⟩
    rw [foldlM_cons_of_step hm, hl']

/-- From `b` on, strict building accepts `us` and ends up with nothing open and with the tree and the kept reports
    of lenient building from `l` on. -/
def Repairs (ts us : List Token) (l b : Builder) : Prop :=
  ∃ l' b', ts.foldlM (step false) l = .ok l' ∧ us.foldlM (step true) b = .ok b' ∧
    l'.tree = b'.tree ∧ b'.diagnostics = l'.kept ∧ b'.unclosed = []

theorem Repairs.cons {l' b' : Builder} {u : Token} {ts us : List Token} (h : Repairs ts us l' b')
    (hl : l.step false t = .ok l') (hb : b.step true u = .ok b') : Repairs (t :: ts) (u :: us) l b := by
  obtain ⟨l'', b'', hl'', hb'', hrest⟩ := h
  refine ⟨l'', b'', ?_, ?_, hrest⟩
  · rw [foldlM_cons_of_step hl, hl'']
  · rw [foldlM_cons_of_step hb, hb'']

/-- At the end of a document the strict builder is given closers for all that is open. -/
theorem Opens.close_all : ∀ {opened : List Container} {b : Builder}, Opens opened b →
    ∃ b', (repair opened []).foldlM (step true) b = .ok b' ∧ b'.tree = b.tree ∧ b'.diagnostics = b.diagnostics ∧
      b'.unclosed = []
  | [], b, ⟨s, hs, hopened⟩ => ⟨b, rfl, rfl, rfl, hs.unclosed_eq_nil.mpr (List.map_eq_nil_iff.mp hopened)⟩
  | c :: opened, b, h => by
    obtain ⟨hstep, hopens⟩ := h.close (t := { directive := c.closer }) rfl
    obtain ⟨b', hb', hrest⟩ := hopens.close_all
    refine ⟨b', ?_, hrest⟩
    show (_ :: repair opened []).foldlM (step true) b = .ok b'
    rw [foldlM_cons_of_step hstep, hb']

theorem Alongside.repairs : ∀ (ts : List Token) {opened : List Container} {l b : Builder}, Alongside opened l b →
    Repairs ts (repair opened ts) l b
  | [], opened, l, b, h => by
    obtain ⟨b', hb', htree, hreports, hunclosed⟩ := h.opens.close_all
    exact ⟨l, b', rfl, hb', h.tree.trans htree.symm, hreports.trans h.reports, hunclosed⟩
  | t :: ts, opened, l, b, h => by
    unfold repair
    split
    · next c ht =>
      have hc : ∀ c, t.role ≠ .closer c := by simp [ht]
      exact ((h.opener ht).repairs ts).cons (step_append hc false l) (step_append hc true b)
    · next d ht =>
      split
      · -- Only the root is open: the lenient builder closes it and drops what follows.
        obtain ⟨s, hs, hopened⟩ := h.opens
        have habove : s.above = [] := List.map_eq_nil_iff.mp hopened
        have hl : l.stack.tail = [] := by rw [h.stack, hs.stack, habove]; rfl
        obtain ⟨m, hm, hstack, htree, hkept⟩ := l.close_lenient t d
        obtain ⟨l', hl', -, htree', hkept'⟩ := foldlM_of_closed ts (hstack.trans hl)
        rw [← step_closer ht] at hm
        refine ⟨l', b, ?_, rfl, (htree'.trans htree).trans h.tree, ?_, hs.unclosed_eq_nil.mpr habove⟩
        · rw [foldlM_cons_of_step hm, hl']
        · rw [h.reports, hkept', hkept]
      · next c opened =>
        obtain ⟨l', b', hl', hb', h'⟩ := h.closer ht
        exact (h'.repairs ts).cons hl' hb'
    · next ho hc => exact ((h.leaf ho).repairs ts).cons (step_append hc false l) (step_append hc true b)

theorem foldlM_refuse_false : ∀ (ds : List Diagnostic) (b : Builder),
    ds.foldlM (refuse false) b = .ok { b with diagnostics := b.diagnostics ++ ds }
  | [], b => by
    rw [List.append_nil]
    rfl
  | d :: ds, b => by
    show ds.foldlM (refuse false) (b.report d) = _
    rw [foldlM_refuse_false ds, report, List.append_assoc, List.singleton_append]

/-- Finishing leniently reports what is open, which is nothing that is kept. -/
theorem finish_lenient (b : Builder) : ∃ b', b.finish false = .ok b' ∧ b'.tree = b.tree ∧ b'.kept = b.kept := by
  refine ⟨_, foldlM_refuse_false b.unclosed b, rfl, ?_⟩
  have hnone : b.unclosed.filter (·.issue.isUnrecognized) = [] := by
    rw [List.filter_eq_nil_iff]
    intro d hd
    obtain ⟨i, -, rfl⟩ := List.mem_map.mp hd
    exact Bool.false_ne_true
  rw [kept, List.filter_append, hnone, List.append_nil]
  rfl

end Builder

/-- Lenient parsing builds what strict parsing builds from the repaired document, and of the lenient reports the
    strict ones are those on unrecognized directives. -/
theorem lenient_repairs (tokens : List Token) : ∃ l p, parse false tokens = .ok l ∧
    parse true (repair [] tokens) = .ok p ∧ p.tree = l.tree ∧
    p.diagnostics = l.diagnostics.filter (·.issue.isUnrecognized) := by
  obtain ⟨l, b, hl, hb, htree, hreports, hunclosed⟩ := Builder.alongside_start.repairs tokens
  obtain ⟨l', hl', htree', hkept⟩ := l.finish_lenient
  refine ⟨l'.parsed, b.parsed, ?_, ?_, ?_, ?_⟩
  · rw [parse_of_foldlM hl, hl']
    rfl
  · rw [parse_of_foldlM hb, Builder.finish_of_nil hunclosed]
    rfl
  · exact (htree'.trans htree).symm
  · exact hreports.trans hkept.symm

end FormDirectives
