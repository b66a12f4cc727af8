import FormDirectives.Proofs.Build.Spine

/-! Balanced documents: items one after the other, where an item is a single directive or a container, that is an
    opener, the items in it, and a closer of the opener's kind. They are what a pushdown reading accepts. The
    reading keeps the spine of the part read so far, so it finds the one forest that a document spells, and a
    balanced stretch of a document leaves the containers around it as they are. -/

namespace FormDirectives

/-! ### Directives that bracket -/

/-- The directive that closes a container. -/
def Container.closer : Container → String
  | form => "endform"
  | group => "endgroup"

namespace Token
variable {t : Token} {c : Container}

theorem role_eq_opener : t.role = .opener c ↔ t.directive = c.kind := by
  refine ⟨fun h => ?_, fun h => ?_⟩
  · unfold role Role.ofDirective at h
    split at h <;> simp_all <;> subst h <;> rfl
  · rw [role, h]
    cases c <;> rfl

theorem role_eq_closer : t.role = .closer c ↔ t.directive = c.closer := by
  refine ⟨fun h => ?_, fun h => ?_⟩
  · unfold role Role.ofDirective at h
    split at h <;> simp_all <;> subst h <;> rfl
  · rw [role, h]
    cases c <;> rfl

theorem kind_node (h : ∀ c, t.role ≠ .closer c) : t.node.kind = t.directive := by
  cases hrole : t.role with
  | opener c => rw [kind_node_of_opener hrole, role_eq_opener.mp hrole]
  | closer c => exact absurd hrole (h c)
  | field f =>
    have hkind : t.node.kind = (f.element t.props).kind := by simp only [Node.kind, node, element, hrole]
    rw [hkind]
    unfold role Role.ofDirective at hrole
    split at hrole <;> cases hrole
    · next h => exact h.symm
    · next h => exact h.symm
    · next h =>
      simp only [Field.element]
      split <;> exact h.symm
    · next h => exact h.symm
  | unknown => simp [Node.kind, node, element, hrole, Element.kind]

/-- A node has the kind, the properties and the line of its directive. -/
theorem node_fields (h : ∀ c, t.role ≠ .closer c) :
    t.node.kind = t.directive ∧ t.node.props = t.props ∧ t.node.line = t.line := ⟨kind_node h, rfl, rfl⟩

end Token

/-! ### Balanced documents -/

/-- The document is that of a forest whose labels are its openers and single directives. -/
inductive Balanced : Forest Token → List Token → Prop
  | nil : Balanced .nil []
  | leaf {t : Token} {rest : Forest Token} {vs : List Token} (opens : ∀ c : Container, t.directive ≠ c.kind)
      (closes : ∀ c : Container, t.directive ≠ c.closer) (after : Balanced rest vs) :
      Balanced (.cons t .nil rest) (t :: vs)
  | container {c : Container} {t e : Token} {below rest : Forest Token} {us vs : List Token}
      (opens : t.directive = c.kind) (within : Balanced below us) (closes : e.directive = c.closer)
      (after : Balanced rest vs) : Balanced (.cons t below rest) (t :: (us ++ e :: vs))

theorem Balanced.append {f g : Forest Token} {us vs : List Token} (hf : Balanced f us) (hg : Balanced g vs) :
    Balanced (f ++ g) (us ++ vs) := by
  induction hf with
  | nil => exact hg
  | leaf opens closes _ ih => exact .leaf opens closes ih
  | container opens within closes _ _ ih =>
    rw [List.cons_append, List.append_assoc, List.cons_append]
    exact .container opens within closes ih

/-- The closers of a balanced document are no labels of its forest. -/
theorem Balanced.not_closer {f : Forest Token} {us : List Token} (h : Balanced f us) :
    ∀ t ∈ f.toList, ∀ c, t.role ≠ .closer c := by
  induction h with
  | nil => exact nofun
  | leaf _ closes _ ih =>
    refine List.forall_mem_cons.mpr ⟨fun c hc => closes c (Token.role_eq_closer.mp hc), ih⟩
  | container opens _ _ _ ihw iha =>
    refine List.forall_mem_cons.mpr ⟨fun c hc => ?_, List.forall_mem_append.mpr ⟨ihw, iha⟩⟩
    cases hc.symm.trans (Token.role_eq_opener.mpr opens)

/-! ### Reading with a stack -/

namespace Spine
variable {s s' : Spine Token} {t : Token} {c : Container} {f : Forest Token} {us ts : List Token}

/-- Reads one more directive; a closer must be of the kind of the container it closes. -/
def read? (s : Spine Token) (t : Token) : Option (Spine Token) :=
  match t.role with
  | .opener _ => some (s.enter t)
  | .closer c =>
    match s.above with
    | [] => none
    | (a, before) :: above => if a.role = .opener c then some (leave s.done a before above) else none
  | _ => some (s.append (.leaf t))

theorem read?_opener (h : t.role = .opener c) : s.read? t = some (s.enter t) := by
  simp only [read?, h]

theorem read?_leaf (ho : ∀ c, t.role ≠ .opener c) (hc : ∀ c, t.role ≠ .closer c) :
    s.read? t = some (s.append (.leaf t)) := by
  unfold read?
  split
  · next c h => exact absurd h (ho c)
  · next c h => exact absurd h (hc c)
  · rfl

theorem read?_closer {done before : Forest Token} {a : Token} {above : List (Token × Forest Token)}
    (h : t.role = .closer c) (ha : a.role = .opener c) :
    read? ⟨done, (a, before) :: above⟩ t = some (leave done a before above) := by
  simp only [read?, h, ha, ↓reduceIte]

theorem append_append (s : Spine Token) (f g : Forest Token) : (s.append f).append g = s.append (f ++ g) := by
  simp only [append, Forest.append_assoc]

/-- A balanced stretch is read into its forest, whatever stands before it. -/
theorem foldlM_read?_of_balanced (h : Balanced f us) : ∀ s : Spine Token, us.foldlM read? s = some (s.append f) := by
  induction h with
  | nil => exact fun s => by simp [append]
  | @leaf t rest vs opens closes _ ih =>
    intro s
    have hread : s.read? t = some (s.append (.leaf t)) :=
      read?_leaf (fun c hc => opens c (Token.role_eq_opener.mp hc)) fun c hc => closes c (Token.role_eq_closer.mp hc)
    rw [List.foldlM_cons, hread, Option.bind_eq_bind, Option.bind_some, ih, append_append]
    rfl
  | @container c t e below rest us vs opens _ closes _ ihw iha =>
    intro s
    have hopen : s.read? t = some (s.enter t) := read?_opener (Token.role_eq_opener.mpr opens)
    have hclose : ((s.enter t).append below).read? e = some (s.append (.cons t below .nil)) :=
      read?_closer (Token.role_eq_closer.mpr closes) (Token.role_eq_opener.mpr opens)
    rw [List.foldlM_cons, hopen, Option.bind_eq_bind, Option.bind_some, List.foldlM_append, ihw,
      Option.bind_eq_bind, Option.bind_some, List.foldlM_cons, hclose, Option.bind_eq_bind, Option.bind_some, iha,
      append_append]
    rfl

/-! ### What has been read -/

/-- The openers of the containers with what stands before them, outermost first. -/
inductive Leads : List (Token × Forest Token) → List Token → Prop
  | nil : Leads [] []
  | cons {c : Container} {a : Token} {before : Forest Token} {above : List (Token × Forest Token)} {us vs : List Token}
      (outside : Leads above us) (balanced : Balanced before vs) (opens : a.role = .opener c) :
      Leads ((a, before) :: above) (us ++ vs ++ [a])

/-- A spine is spelled by what leads to its innermost container and a balanced document in that container. -/
inductive Spells (s : Spine Token) : List Token → Prop
  | intro {us vs : List Token} (outside : Leads s.above us) (balanced : Balanced s.done vs) : Spells s (us ++ vs)

theorem balanced_leaf (ho : ∀ c, t.role ≠ .opener c) (hc : ∀ c, t.role ≠ .closer c) : Balanced (.leaf t) [t] :=
  .leaf (fun c h => ho c (Token.role_eq_opener.mpr h)) (fun c h => hc c (Token.role_eq_closer.mpr h)) .nil

theorem Spells.read? (h : s.Spells us) (hr : s.read? t = some s') : s'.Spells (us ++ [t]) := by
  obtain @⟨vs, ws, outside, balanced⟩ := h
  unfold Spine.read? at hr
  split at hr
  · next c hrole =>
    cases hr
    have hentered : Leads (s.enter t).above (vs ++ ws ++ [t]) := .cons outside balanced hrole
    simpa using Spells.intro hentered .nil
  · next c hrole =>
    obtain ⟨done, _ | ⟨⟨a, before⟩, above⟩⟩ := s
    · cases hr
    · simp only [Option.ite_none_right_eq_some] at hr
      obtain ⟨ha, hr⟩ := hr
      cases hr
      cases outside with
      | @cons _ _ _ _ us vs outside hbefore opens =>
        have hitem : Balanced (.cons a done .nil) (a :: (ws ++ [t])) :=
          .container (Token.role_eq_opener.mp ha) balanced (Token.role_eq_closer.mp hrole) .nil
        have hdone : Balanced (leave done a before above).done (vs ++ a :: (ws ++ [t])) := hbefore.append hitem
        simpa using Spells.intro (s := leave done a before above) outside hdone
  · next ho hc =>
    cases hr
    rw [List.append_assoc]
    exact .intro outside (balanced.append (balanced_leaf ho hc))

theorem Spells.foldlM_read? : ∀ {ts us : List Token} {s : Spine Token}, s.Spells us →
    ts.foldlM Spine.read? s = some s' → s'.Spells (us ++ ts)
  | [], us, s, h, hr => by
    cases hr
    rwa [List.append_nil]
  | t :: ts, us, s, h, hr => by
    obtain ⟨m, hm, hr⟩ := Option.bind_eq_some_iff.mp hr
    have hspells := (h.read? hm).foldlM_read? hr
    rwa [List.append_assoc, List.singleton_append] at hspells

/-- A document is balanced, with a forest, exactly if it is read into that forest and nothing is left open. -/
theorem balanced_iff_foldlM_read? : Balanced f us ↔ us.foldlM read? empty = some ⟨f, []⟩ := by
  refine ⟨fun h => ?_, fun h => ?_⟩
  · rw [foldlM_read?_of_balanced h]
    rfl
  · have hspells : Spells ⟨f, []⟩ us := (Spells.intro (s := empty) .nil .nil).foldlM_read? h
    obtain ⟨outside, balanced⟩ := hspells
    cases outside
    exact balanced

end Spine

/-- A document spells one forest at most. -/
theorem Balanced.unique {f g : Forest Token} {us : List Token} (hf : Balanced f us) (hg : Balanced g us) : g = f := by
  have hread := (Spine.balanced_iff_foldlM_read?.mp hg).symm.trans (Spine.balanced_iff_foldlM_read?.mp hf)
  cases hread
  rfl

end FormDirectives
