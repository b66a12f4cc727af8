import FormDirectives.Proofs.Build.Grammar

/-! Strict building is the pushdown reading of balanced documents, with places. It stops where the reading stops,
    and otherwise carries the spine that was read, so what it accepts are the balanced documents and the tree it
    gives holds the forest that the document spells. -/

namespace FormDirectives

/-- The forest of the nodes below the root, as the children lists give it. -/
def Tree.Reads (t : Tree) (f : Forest Node) : Prop :=
  ∃ places : Forest Nat, t.Holds (.cons 0 places .nil) ∧ places.map t.nodeAt = f

namespace Builder
variable {b : Builder} {s : Spine Placed} {t : Token} {ts : List Token}

/-- Building and reading stopped alike, or the builder carries the spine that was read. -/
inductive Mirrors : Except StructureError Builder → Option (Spine Token) → Prop
  | refused (e : StructureError) : Mirrors (.error e) none
  | carried {b : Builder} {s : Spine Placed} (h : b.Carries s) : Mirrors (.ok b) (some (s.map Prod.snd))

theorem mirrors_close {c : Container} (h : b.Carries s) (ht : t.role = .closer c) :
    Mirrors (b.step true t) ((s.map Prod.snd).read? t) := by
  obtain ⟨done, _ | ⟨⟨a, before⟩, above⟩⟩ := s
  · have hread : (Spine.map Prod.snd (⟨done, []⟩ : Spine Placed)).read? t = none := by
      simp only [Spine.read?, Spine.map, ht, List.map_nil]
    simp only [step_closer ht, close, h.closeIssue?_of_root rfl, hread]
    exact .refused _
  · have hread : (Spine.map Prod.snd ⟨done, (a, before) :: above⟩).read? t =
        if a.2.role = .opener c then some ((Spine.leave done a before above).map Prod.snd) else none := by
      rw [Spine.map_leave]
      simp only [Spine.read?, Spine.map, ht, List.map_cons]
    obtain ⟨d, ha⟩ := h.opened _ List.mem_cons_self
    rw [hread]
    by_cases hcd : d = c
    · subst hcd
      rw [if_pos ha, h.step_fitting ht ha]
      exact .carried h.leave
    · rw [if_neg fun ha' => hcd (Role.opener.inj (ha.symm.trans ha'))]
      obtain ⟨issue, hissue⟩ : ∃ issue, b.closeIssue? t c = some issue :=
        Option.ne_none_iff_exists'.mp fun hnone => hcd ((h.closeIssue?_eq_none ha).mp hnone)
      simp only [step_closer ht, close, hissue]
      exact .refused _

theorem mirrors_step (h : b.Carries s) (t : Token) : Mirrors (b.step true t) ((s.map Prod.snd).read? t) := by
  by_cases hc : ∃ c, t.role = .closer c
  · obtain ⟨c, ht⟩ := hc
    exact mirrors_close h ht
  · have hc : ∀ c, t.role ≠ .closer c := fun c ht => hc ⟨c, ht⟩
    rw [step_append hc]
    by_cases ho : ∃ c, t.role = .opener c
    · obtain ⟨c, ht⟩ := ho
      rw [Spine.read?_opener ht]
      simpa using Mirrors.carried (h.append_opener ht)
    · have ho : ∀ c, t.role ≠ .opener c := fun c ht => ho ⟨c, ht⟩
      rw [Spine.read?_leaf ho hc]
      simpa [Forest.leaf] using Mirrors.carried (h.append_leaf ho)

theorem mirrors_foldlM : ∀ {ts : List Token} {b : Builder} {s : Spine Placed}, b.Carries s →
    Mirrors (ts.foldlM (step true) b) (ts.foldlM Spine.read? (s.map Prod.snd))
  | [], _, _, h => .carried h
  | t :: ts, b, s, h => by
    rw [List.foldlM_cons, List.foldlM_cons]
    generalize hb : b.step true t = r, hs : (s.map Prod.snd).read? t = r'
    have hstep : Mirrors r r' := hb ▸ hs ▸ mirrors_step h t
    cases hstep with
    | refused e => exact .refused e
    | carried h => exact mirrors_foldlM h

/-! ### Accepting -/

theorem Carries.reads (h : b.Carries s) (hs : s.above = []) : b.tree.Reads ((s.done.map Prod.snd).map Token.node) := by
  obtain ⟨done, above⟩ := s
  subst hs
  refine ⟨done.places, ⟨⟨b.tree.linked.size_pos, h.rises⟩, h.done, trivial⟩, ?_⟩
  rw [Forest.places, Forest.map_map, Forest.map_map]
  exact Forest.map_congr fun x hx => h.nodeAt_label (by simpa [Spine.labels, Spine.labelsAbove] using hx)

theorem finish_of_nil (h : b.unclosed = []) (strict : Bool) : b.finish strict = .ok b := by
  rw [finish, h]
  rfl

theorem finish_true_of_cons {d : Diagnostic} {rest : List Diagnostic} (h : b.unclosed = d :: rest) :
    b.finish true = .error { diagnostic := d, earlier := b.diagnostics } := by
  rw [finish, h]
  rfl

end Builder

/-- A tree reads in one way only. -/
theorem Tree.Reads.unique {t : Tree} {f g : Forest Node} (hf : t.Reads f) (hg : t.Reads g) : g = f := by
  obtain ⟨places, hplaces, rfl⟩ := hf
  obtain ⟨places', hplaces', rfl⟩ := hg
  cases hplaces.unique hplaces' rfl
  rfl

theorem parse_of_foldlM {strict : Bool} {tokens : List Token} {b : Builder}
    (hb : tokens.foldlM (Builder.step strict) {} = .ok b) :
    parse strict tokens = (b.finish strict).map Builder.parsed := by
  rw [parse, hb]
  rfl

/-- What strict parsing accepts is balanced, and its tree reads as the forest that was spelled; what it refuses
    is not balanced. -/
theorem parse_true (tokens : List Token) :
    (∃ e, parse true tokens = .error e ∧ ∀ f, ¬ Balanced f tokens) ∨
    ∃ p f, parse true tokens = .ok p ∧ Balanced f tokens ∧ p.tree.Reads (f.map Token.node) := by
  have hmirrors : Builder.Mirrors (tokens.foldlM (Builder.step true) {}) (tokens.foldlM Spine.read? .empty) :=
    Builder.mirrors_foldlM Builder.carries_start
  generalize hbuilt : tokens.foldlM (Builder.step true) {} = built at hmirrors
  generalize hread : tokens.foldlM Spine.read? .empty = read at hmirrors
  cases hmirrors with
  | refused e =>
    refine Or.inl ⟨e, ?_, fun f hf => ?_⟩
    · rw [parse, hbuilt]
      rfl
    · cases hread.symm.trans (Spine.balanced_iff_foldlM_read?.mp hf)
  | @carried b s h =>
    rcases hopen : b.unclosed with _ | ⟨d, rest⟩
    · have hs := h.unclosed_eq_nil.mp hopen
      have hparse : parse true tokens = .ok b.parsed := by
        rw [parse_of_foldlM hbuilt, Builder.finish_of_nil hopen]
        rfl
      have hbalanced : Balanced (s.done.map Prod.snd) tokens := by
        rw [Spine.balanced_iff_foldlM_read?, hread, Spine.map, hs, List.map_nil]
      exact Or.inr ⟨b.parsed, s.done.map Prod.snd, hparse, hbalanced, h.reads hs⟩
    · -- A container is still open, so the reading did not end at the root.
      have hparse : parse true tokens = .error { diagnostic := d, earlier := b.diagnostics } := by
        rw [parse_of_foldlM hbuilt, Builder.finish_true_of_cons hopen]
        rfl
      refine Or.inl ⟨_, hparse, fun f hf => ?_⟩
      have hspine := Option.some.inj (hread.symm.trans (Spine.balanced_iff_foldlM_read?.mp hf))
      have hs : s.above = [] := List.map_eq_nil_iff.mp (congrArg Spine.above hspine)
      rw [h.unclosed_eq_nil.mpr hs] at hopen
      cases hopen

theorem exists_parse_true_iff (tokens : List Token) : (∃ p, parse true tokens = .ok p) ↔ ∃ f, Balanced f tokens := by
  rcases parse_true tokens with ⟨e, he, hnone⟩ | ⟨p, f, hp, hf, -⟩
  · rw [he]
    exact ⟨nofun, fun ⟨f, hf⟩ => absurd hf (hnone f)⟩
  · exact ⟨fun _ => ⟨f, hf⟩, fun _ => ⟨p, hp⟩⟩

/-- Strict parsing accepts the balanced documents and no others. A balanced document spells one forest, and the
    tree that is built from it reads as that forest, each label as the node of its token, and in no other way. The
    node has the kind, the properties and the line of the token. -/
theorem strict_accepts_balanced (tokens : List Token) :
    ((∃ p, parse true tokens = .ok p) ↔ ∃ f, Balanced f tokens) ∧
    ∀ p, parse true tokens = .ok p → ∃ f, (∀ g, Balanced g tokens ↔ g = f) ∧
      (∀ g, p.tree.Reads g ↔ g = f.map Token.node) ∧
      ∀ t ∈ f.toList, t.node.kind = t.directive ∧ t.node.props = t.props ∧ t.node.line = t.line := by
  refine ⟨exists_parse_true_iff tokens, fun p hp => ?_⟩
  rcases parse_true tokens with ⟨e, he, -⟩ | ⟨p', f, hp', hf, hreads⟩
  · cases he.symm.trans hp
  · cases hp'.symm.trans hp
    exact ⟨f, fun g => ⟨hf.unique, fun h => h ▸ hf⟩, fun g => ⟨hreads.unique, fun h => h ▸ hreads⟩,
      fun t ht => t.node_fields (hf.not_closer t ht)⟩

/-- A form with a group in it, and with a directive that has no rendering rule. -/
theorem strict_accepts_nested :
    ∃ p, parse true [⟨"form", ∅, 1⟩, ⟨"group", ∅, 2⟩, ⟨"input", ∅, 3⟩, ⟨"endgroup", ∅, 4⟩, ⟨"chart", ∅, 5⟩,
        ⟨"endform", ∅, 6⟩] = .ok p ∧
      ∀ g, p.tree.Reads g ↔ g = .cons (Token.node ⟨"form", ∅, 1⟩)
        (.cons (Token.node ⟨"group", ∅, 2⟩) (.leaf (Token.node ⟨"input", ∅, 3⟩))
          (.leaf (Token.node ⟨"chart", ∅, 5⟩))) .nil := by
  have hf : Balanced (.cons ⟨"form", ∅, 1⟩ (.cons ⟨"group", ∅, 2⟩ (.leaf ⟨"input", ∅, 3⟩) (.leaf ⟨"chart", ∅, 5⟩)) .nil)
      [⟨"form", ∅, 1⟩, ⟨"group", ∅, 2⟩, ⟨"input", ∅, 3⟩, ⟨"endgroup", ∅, 4⟩, ⟨"chart", ∅, 5⟩, ⟨"endform", ∅, 6⟩] :=
    Spine.balanced_iff_foldlM_read?.mpr rfl
  obtain ⟨p, hp⟩ := (strict_accepts_balanced _).1.mpr ⟨_, hf⟩
  obtain ⟨f, hbalanced, hreads, -⟩ := (strict_accepts_balanced _).2 p hp
  cases (hbalanced _).mp hf
  exact ⟨p, hp, hreads⟩

end FormDirectives
