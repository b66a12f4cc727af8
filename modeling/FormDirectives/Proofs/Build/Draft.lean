import FormDirectives.Proofs.Build.Fate
import FormDirectives.Proofs.Build.Repair
import Mathlib.Data.List.Forall2

/-! Lenient building as the reading of a draft. A draft is the spine of the document read so far, and its finished
    forest once the root was closed. Each lenient step reads one more directive into the draft that the builder
    drafts, and adds the nodes and reports of the directive's fate; so the tree in the end reads as the draft with
    all its containers closed. -/

namespace FormDirectives

inductive Draft (α : Type)
  | ongoing (s : Spine α)
  | ended (f : Forest α)

/-- What is finished when the containers around it are closed, the innermost first. -/
def Spine.closed {α : Type} : Forest α → List (α × Forest α) → Forest α
  | done, [] => done
  | done, (a, before) :: above => closed (before ++ .cons a done .nil) above

namespace Draft
variable {α β : Type}

def empty : Draft α := .ongoing .empty

/-- The forest of a draft to which nothing is added. -/
def forest : Draft α → Forest α
  | ongoing s => Spine.closed s.done s.above
  | ended f => f

def scope : Draft Token → Scope
  | ongoing s => some (s.above.map Prod.fst)
  | ended _ => none

/-- The draft after the innermost container is closed, or else the root. -/
def close (s : Spine α) : Draft α :=
  match s.above with
  | [] => ended s.done
  | (a, before) :: above => ongoing (Spine.leave s.done a before above)

/-- Reads one more directive; a closer closes whatever is open. -/
def read (d : Draft Token) (t : Token) : Draft Token :=
  match d with
  | ended f => ended f
  | ongoing s =>
    match t.role with
    | .opener _ => ongoing (s.enter t)
    | .closer _ => close s
    | _ => ongoing (s.append (.leaf t))

theorem scope_read (d : Draft Token) (t : Token) : (d.read t).scope = d.scope.after t := by
  cases d with
  | ended f => cases hrole : t.role <;> simp [read, scope, Scope.after, hrole]
  | ongoing s =>
    obtain ⟨done, _ | ⟨⟨a, before⟩, above⟩⟩ := s <;> cases hrole : t.role <;>
      simp [read, close, scope, Scope.after, hrole, Spine.enter, Spine.append, Spine.leave]

theorem scope_foldl (ts : List Token) (d : Draft Token) : (ts.foldl read d).scope = ts.foldl Scope.after d.scope :=
  (List.foldl_hom scope fun d t => (scope_read d t).symm).symm

end Draft

/-- The forest that a document holds, read leniently. -/
def document (ts : List Token) : Forest Token := (ts.foldl Draft.read .empty).forest

/-! ### Labels

What a draft becomes under a labelling depends on the labels of the directives and on nothing else that tells two
directives of one role apart; of a closer it depends on nothing at all. -/

/-- Both are closers, or they have one role and one label. -/
def Token.Matches {β : Type} (g : Token → β) (t u : Token) : Prop :=
  ((∃ c, t.role = .closer c) ∧ ∃ c, u.role = .closer c) ∨ t.role = u.role ∧ g t = g u

namespace Draft
variable {α β : Type}

def map (g : α → β) : Draft α → Draft β
  | ongoing s => ongoing (s.map g)
  | ended f => ended (f.map g)

theorem map_close (g : α → β) (s : Spine α) : (close s).map g = close (s.map g) := by
  obtain ⟨done, _ | ⟨⟨a, before⟩, above⟩⟩ := s
  · rfl
  · rw [close, map, Spine.map_leave]
    rfl

theorem map_closed (g : α → β) : ∀ (above : List (α × Forest α)) (done : Forest α),
    (Spine.closed done above).map g = Spine.closed (done.map g) (above.map fun x => (g x.1, x.2.map g))
  | [], _ => rfl
  | (a, before) :: above, done => by
    rw [Spine.closed, map_closed g above, Forest.map_append, Forest.map_cons, Forest.map_nil]
    rfl

theorem forest_map (g : α → β) (d : Draft α) : (d.map g).forest = d.forest.map g := by
  cases d with
  | ongoing s => exact (map_closed g s.above s.done).symm
  | ended f => rfl

variable {g : Token → β} {d e : Draft Token} {t u : Token} {ts us : List Token}

theorem map_read (h : d.map g = e.map g) (htu : t.Matches g u) : (d.read t).map g = (e.read u).map g := by
  match d, e, h with
  | .ended f, .ended f', h => exact h
  | .ongoing s, .ongoing s', h =>
    have hs : s.map g = s'.map g := Draft.ongoing.inj h
    rcases htu with ⟨⟨c, ht⟩, c', hu⟩ | ⟨hrole, hlabel⟩
    · simp only [read, ht, hu, map_close, hs]
    · simp only [read, hrole]
      split
      · simp only [map, Spine.map_enter, hs, hlabel]
      · rw [map_close, map_close, hs]
      · simp only [map, Spine.map_append, Forest.leaf, Forest.map_cons, Forest.map_nil, hs, hlabel]

theorem map_foldl_read (h : List.Forall₂ (Token.Matches g) ts us) : ∀ {d e : Draft Token}, d.map g = e.map g →
    (ts.foldl read d).map g = (us.foldl read e).map g := by
  induction h with
  | nil => exact fun h => h
  | cons htu _ ih => exact fun h => ih (map_read h htu)

end Draft

/-- Documents whose directives match hold forests with the same labels. -/
theorem document_map {β : Type} {g : Token → β} {ts us : List Token} (h : List.Forall₂ (Token.Matches g) ts us) :
    (document ts).map g = (document us).map g := by
  rw [document, document, ← Draft.forest_map, ← Draft.forest_map, Draft.map_foldl_read h rfl]

/-! ### Steps -/

namespace Builder
variable {b : Builder} {d : Draft Token} {t : Token} {c : Container}

theorem Carries.congr {s : Spine Placed} (h : b.Carries s) {b' : Builder} (htree : b'.tree = b.tree)
    (hstack : b'.stack = b.stack) : b'.Carries s := by
  obtain ⟨tree, stack, diagnostics⟩ := b'
  cases htree
  cases hstack
  exact ⟨h.stack, h.numbered, h.nodes, h.opened, h.done, h.rises⟩

/-- The builder is open and carries the draft, or its root was closed and its tree reads as the draft. -/
inductive Drafts (b : Builder) : Draft Token → Prop
  | ongoing {s : Spine Placed} (h : b.Carries s) : b.Drafts (.ongoing (s.map Prod.snd))
  | ended {f : Forest Token} (closed : b.stack = []) (h : b.tree.Reads (f.map Token.node)) : b.Drafts (.ended f)

theorem drafts_start : Drafts {} .empty := .ongoing carries_start

theorem Carries.closeIssue?_eq_fate {done before : Forest Placed} {a : Placed} {above : List (Placed × Forest Placed)}
    (h : b.Carries ⟨done, (a, before) :: above⟩) (ht : t.role = .closer c) :
    (b.closeIssue? t c).toList = (Fate.closing t a.2).buildReports := by
  obtain ⟨d, ha⟩ := h.opened _ List.mem_cons_self
  have hdirective : a.2.directive = d.kind := Token.role_eq_opener.mp ha
  rw [h.closeIssue?_of_open ha]
  simp only [Fate.buildReports, Token.fits, ht, ha, hdirective, eq_comm (a := c), decide_eq_true_eq]
  split <;> rfl

theorem Drafts.closeIssue? (h : b.Drafts d) (ht : t.role = .closer c) :
    (b.closeIssue? t c).toList = (d.scope.fate t).buildReports := by
  cases h with
  | ended closed h => simp [Builder.closeIssue?, closed, Draft.scope, Scope.fate, ht, Fate.buildReports]
  | @ongoing s h =>
    obtain ⟨done, _ | ⟨⟨a, before⟩, above⟩⟩ := s
    · simp [h.closeIssue?_of_root rfl, Draft.scope, Spine.map, Scope.fate, ht, Fate.buildReports]
    · rw [h.closeIssue?_eq_fate ht]
      simp [Draft.scope, Spine.map, Scope.fate, ht]

theorem Drafts.close (h : b.Drafts d) (ht : t.role = .closer c) {b' : Builder} (htree : b'.tree = b.tree)
    (hstack : b'.stack = b.stack.tail) : b'.Drafts (d.read t) := by
  cases h with
  | ended closed h =>
    refine .ended (hstack.trans ?_) (htree ▸ h)
    rw [closed]
    rfl
  | @ongoing s h =>
    obtain ⟨done, _ | ⟨⟨a, before⟩, above⟩⟩ := s
    · -- The root is the last to be popped, and what was finished in it is the document.
      have hread : (Draft.ongoing (Spine.map Prod.snd (⟨done, []⟩ : Spine Placed))).read t =
          .ended (done.map Prod.snd) := by
        simp [Draft.read, Draft.close, ht, Spine.map]
      rw [hread]
      refine .ended (hstack.trans ?_) (htree ▸ h.reads rfl)
      rw [h.stack]
      rfl
    · have hread : (Draft.ongoing (Spine.map Prod.snd ⟨done, (a, before) :: above⟩)).read t =
          .ongoing ((Spine.leave done a before above).map Prod.snd) := by
        simp [Draft.read, Draft.close, ht, Spine.map, Spine.leave]
      rw [hread]
      exact .ongoing (h.leave.congr htree hstack)

/-- What is no closer becomes a node while the root is open, and is dropped when it was closed. -/
theorem Drafts.append (h : b.Drafts d) (ht : ∀ c, t.role ≠ .closer c) :
    (b.append t).Drafts (d.read t) ∧ (b.append t).tree.nodes = b.tree.nodes ++ (d.scope.fate t).nodes ∧
      (b.append t).diagnostics = b.diagnostics ++ (d.scope.fate t).buildReports := by
  cases h with
  | @ended f closed h =>
    rw [Draft.scope, Scope.fate_none ht]
    simp only [Builder.append, closed, Fate.nodes, List.append_nil, Fate.buildReports]
    exact ⟨.ended closed h, rfl, rfl⟩
  | @ongoing s h =>
    rw [Draft.scope, Scope.fate_some ht]
    refine ⟨?_, ?_⟩
    · by_cases ho : ∃ c, t.role = .opener c
      · obtain ⟨c, ho⟩ := ho
        have hread : (Draft.ongoing (s.map Prod.snd)).read t =
            .ongoing ((s.enter (b.tree.size, t)).map Prod.snd) := by
          simp [Draft.read, ho]
        exact hread ▸ .ongoing (h.append_opener ho)
      · have hread : (Draft.ongoing (s.map Prod.snd)).read t =
            .ongoing ((s.append (.leaf (b.tree.size, t))).map Prod.snd) := by
          simp only [Draft.read]
          split <;> simp_all [Forest.leaf]
        exact hread ▸ .ongoing (h.append_leaf fun c hc => ho ⟨c, hc⟩)
    · obtain ⟨below, hstack⟩ := h.stack_eq
      simp only [Builder.append, hstack, addNode, Tree.nodes_add, Fate.nodes, Fate.buildReports]
      split <;> simp [Builder.report]

/-- A lenient step does what the fate of the directive says. -/
theorem Drafts.step (h : b.Drafts d) (t : Token) : ∃ b', b.step false t = .ok b' ∧ b'.Drafts (d.read t) ∧
    b'.tree.nodes = b.tree.nodes ++ (d.scope.fate t).nodes ∧
    b'.diagnostics = b.diagnostics ++ (d.scope.fate t).buildReports := by
  by_cases hc : ∃ c, t.role = .closer c
  · obtain ⟨c, ht⟩ := hc
    refine ⟨_, (step_closer ht false b).trans (b.close_false t c), h.close ht rfl rfl, ?_, congrArg _ (h.closeIssue? ht)⟩
    rw [Scope.nodes_fate_of_closer ht, List.append_nil]
  · have ht : ∀ c, t.role ≠ .closer c := fun c ht => hc ⟨c, ht⟩
    exact ⟨_, step_append ht false b, h.append ht⟩

/-! ### Runs -/

theorem Drafts.foldlM : ∀ (ts : List Token) {b : Builder} {d : Draft Token}, b.Drafts d → ∃ b',
    ts.foldlM (Builder.step false) b = .ok b' ∧ b'.Drafts (ts.foldl Draft.read d) ∧
    b'.tree.nodes = b.tree.nodes ++ (d.scope.fates ts).flatMap Fate.nodes ∧
    b'.diagnostics = b.diagnostics ++ (d.scope.fates ts).flatMap Fate.buildReports
  | [], b, d, h => ⟨b, rfl, h, by simp [Scope.fates], by simp [Scope.fates]⟩
  | t :: ts, b, d, h => by
    obtain ⟨m, hm, hdrafts, hnodes, hreports⟩ := h.step t
    obtain ⟨b', hb', hdrafts', hnodes', hreports'⟩ := hdrafts.foldlM ts
    rw [Draft.scope_read] at hnodes' hreports'
    refine ⟨b', (foldlM_cons_of_step hm ts).trans hb', hdrafts', ?_, ?_⟩
    · rw [hnodes', hnodes, Scope.fates, List.flatMap_cons, List.append_assoc]
    · rw [hreports', hreports, Scope.fates, List.flatMap_cons, List.append_assoc]

theorem Carries.reads_closed : ∀ {above : List (Placed × Forest Placed)} {done : Forest Placed} {b : Builder},
    b.Carries ⟨done, above⟩ → b.tree.Reads (((Spine.closed done above).map Prod.snd).map Token.node)
  | [], _, _, h => h.reads rfl
  | (_, _) :: _, _, _, h => h.leave.reads_closed

theorem Drafts.reads (h : b.Drafts d) : b.tree.Reads (d.forest.map Token.node) := by
  cases h with
  | ended closed h => exact h
  | @ongoing s h =>
    have hforest := Draft.forest_map Prod.snd (.ongoing s)
    rw [Draft.map] at hforest
    exact hforest ▸ h.reads_closed

theorem Carries.nodeAt_above {s : Spine Placed} (h : b.Carries s) {a : Placed × Forest Placed} (ha : a ∈ s.above) :
    b.tree.nodeAt a.1.1 = a.1.2.node :=
  h.nodeAt_label (List.mem_append_left _ (Spine.mem_labelsAbove ha))

theorem Drafts.stack (h : b.Drafts d) : b.stack.map b.tree.nodeAt = d.scope.nodes := by
  cases h with
  | ended closed h =>
    rw [closed]
    rfl
  | @ongoing s h =>
    simp only [h.stack, Draft.scope, Spine.map, Scope.nodes, List.map_append, List.map_map, List.map_singleton,
      Tree.nodeAt_zero]
    congr 1
    exact List.map_congr_left fun a ha => h.nodeAt_above ha

theorem Drafts.unclosed (h : b.Drafts d) : b.unclosed = d.scope.unclosed := by
  cases h with
  | ended closed h =>
    rw [Builder.unclosed, closed]
    rfl
  | @ongoing s h =>
    simp only [Builder.unclosed, h.stack, Draft.scope, Spine.map, Scope.unclosed, List.reverse_append,
      List.reverse_singleton, List.singleton_append, List.drop_one, List.tail_cons, List.map_map, ← List.map_reverse]
    refine List.map_congr_left fun a ha => ?_
    have ha := List.mem_reverse.mp ha
    obtain ⟨c, hc⟩ := h.opened a ha
    have hkind : a.1.2.node.kind = a.1.2.directive := by
      rw [Token.kind_node_of_opener hc, Token.role_eq_opener.mp hc]
    simp only [Function.comp_apply, h.nodeAt_above ha, hkind]
    rfl

end Builder

/-- Lenient parsing accepts every document. The tree reads as the document's forest, its nodes are those of the
    directives that are attached, and the reports are those of the directives and then of what is left open. -/
theorem parse_false (tokens : List Token) : ∃ p, parse false tokens = .ok p ∧
    p.tree.Reads ((document tokens).map Token.node) ∧
    p.tree.nodes = { element := .root } :: (Scope.start.fates tokens).flatMap Fate.nodes ∧
    p.diagnostics = (Scope.start.fates tokens).flatMap Fate.buildReports ++
      (tokens.foldl Scope.after Scope.start).unclosed := by
  obtain ⟨b, hb, hdrafts, hnodes, hreports⟩ := Builder.drafts_start.foldlM tokens
  refine ⟨_, (parse_of_foldlM hb).trans (congrArg _ (Builder.foldlM_refuse_false b.unclosed b)), hdrafts.reads, hnodes,
    ?_⟩
  simp only [Builder.parsed, hreports, hdrafts.unclosed, Draft.scope_foldl]
  rfl

end FormDirectives
