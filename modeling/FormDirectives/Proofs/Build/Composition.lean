import FormDirectives.Proofs.Build.Draft
import FormDirectives.Proofs.Build.Strictness
import FormDirectives.Proofs.Token.Lines

/-! Documents one after the other. A balanced document leaves the lenient reading at the root with nothing open, so
    what follows is read as if it came first, and its trees stand behind those of the balanced document. Where strict
    building accepts a document, it reads the same forest as lenient building. -/

namespace FormDirectives

namespace Spine
variable {α : Type}

/-- A spine with a forest before all that is finished at its root. -/
def behind (f : Forest α) : Forest α → List (α × Forest α) → Spine α
  | done, [] => ⟨f ++ done, []⟩
  | done, (a, before) :: above => ⟨done, (a, (behind f before above).done) :: (behind f before above).above⟩

theorem behind_append (f g : Forest α) (done : Forest α) : ∀ above : List (α × Forest α),
    behind f (done ++ g) above = (behind f done above).append g
  | [] => by simp only [behind, append, Forest.append_assoc]
  | (_, _) :: _ => rfl

theorem closed_behind (f : Forest α) : ∀ (above : List (α × Forest α)) (done : Forest α),
    closed (behind f done above).done (behind f done above).above = f ++ closed done above
  | [], _ => rfl
  | (a, before) :: above, done => by
    have h := closed_behind f above (before ++ .cons a done .nil)
    rw [behind_append] at h
    exact h

end Spine

namespace Draft

/-- A draft with a forest before all that it holds. -/
def behind {α : Type} (f : Forest α) : Draft α → Draft α
  | ongoing s => ongoing (Spine.behind f s.done s.above)
  | ended g => ended (f ++ g)

theorem forest_behind {α : Type} (f : Forest α) (d : Draft α) : (d.behind f).forest = f ++ d.forest := by
  cases d with
  | ongoing s => exact Spine.closed_behind f s.above s.done
  | ended g => rfl

variable {f : Forest Token} {s s' : Spine Token} {t : Token} {ts : List Token}

theorem read_behind (f : Forest Token) (d : Draft Token) (t : Token) :
    (d.behind f).read t = (d.read t).behind f := by
  cases d with
  | ended g => rfl
  | ongoing s =>
    cases hrole : t.role with
    | opener c =>
      simp only [read, behind, hrole]
      rfl
    | closer c =>
      obtain ⟨done, _ | ⟨⟨a, before⟩, above⟩⟩ := s
      · simp only [read, behind, hrole]
        rfl
      · simp only [read, behind, hrole, Spine.behind, close, Spine.leave, Spine.behind_append]
        rfl
    | field _ | unknown => simp only [read, behind, hrole, Spine.append, Spine.behind_append]

theorem foldl_read_behind (f : Forest Token) (ts : List Token) (d : Draft Token) :
    ts.foldl read (d.behind f) = (ts.foldl read d).behind f :=
  List.foldl_hom (behind f) fun d t => read_behind f d t

/-- What is read strictly is read leniently in the same way. -/
theorem read_of_read? (h : s.read? t = some s') : (ongoing s).read t = ongoing s' := by
  cases hrole : t.role with
  | opener c =>
    simp only [Spine.read?, hrole, Option.some.injEq] at h
    simp only [read, hrole, h]
  | closer c =>
    obtain ⟨done, _ | ⟨⟨a, before⟩, above⟩⟩ := s
    · simp only [Spine.read?, hrole, reduceCtorEq] at h
    · simp only [Spine.read?, hrole, Option.ite_none_right_eq_some, Option.some.injEq] at h
      simp only [read, hrole, close, h.2]
  | field _ | unknown =>
    simp only [Spine.read?, hrole, Option.some.injEq] at h
    simp only [read, hrole, h]

theorem foldl_read_of_foldlM_read? : ∀ {ts : List Token} {s : Spine Token}, ts.foldlM Spine.read? s = some s' →
    ts.foldl read (ongoing s) = ongoing s'
  | [], s, h => by
    cases h
    rfl
  | t :: ts, s, h => by
    obtain ⟨m, hm, h⟩ := Option.bind_eq_some_iff.mp h
    rw [List.foldl_cons, read_of_read? hm]
    exact foldl_read_of_foldlM_read? h

end Draft

/-- Behind a balanced document the reading begins anew. -/
theorem document_append {f : Forest Token} {ts : List Token} (h : Balanced f ts) (us : List Token) :
    document (ts ++ us) = f ++ document us := by
  have hread : ts.foldl Draft.read .empty = Draft.behind f .empty := by
    rw [Draft.empty, Draft.foldl_read_of_foldlM_read? (Spine.balanced_iff_foldlM_read?.mp h), Draft.behind]
    simp [Spine.behind, Spine.empty]
  rw [document, List.foldl_append, hread, Draft.foldl_read_behind, Draft.forest_behind]
  rfl

theorem document_of_balanced {f : Forest Token} {ts : List Token} (h : Balanced f ts) : document ts = f := by
  have happend := document_append h []
  rw [List.append_nil] at happend
  exact happend.trans f.append_nil

/-- A balanced document stays balanced further down. -/
theorem Balanced.down {f : Forest Token} {ts : List Token} (h : Balanced f ts) (lines : Nat) :
    Balanced (f.map (Token.down lines)) (ts.map (Token.down lines)) := by
  induction h with
  | nil => exact .nil
  | leaf opens closes _ ih => exact .leaf opens closes ih
  | container opens _ closes _ ihwithin ihafter =>
    rw [Forest.map_cons, List.map_cons, List.map_append, List.map_cons]
    exact .container opens ihwithin closes ihafter

/-! ### Parsing -/

/-- Strict or lenient, the tree of a document that is parsed reads as the forest that the document holds. -/
theorem reads_document {strict : Bool} {ts : List Token} {p : Parsed} (h : parse strict ts = .ok p) :
    p.tree.Reads ((document ts).map Token.node) := by
  obtain ⟨q, hq, hreads, -⟩ := parse_false ts
  cases hq.symm.trans (parse_false_of_parse h)
  exact hreads

/-- Lenient building accepts every document, strict building the balanced ones. -/
theorem exists_parse_iff {strict : Bool} {ts : List Token} :
    (∃ p, parse strict ts = .ok p) ↔ (strict = true → ∃ f, Balanced f ts) := by
  cases strict with
  | false =>
    obtain ⟨p, hp, -⟩ := parse_false ts
    exact ⟨fun _ => nofun, fun _ => ⟨p, hp⟩⟩
  | true =>
    rcases parse_true ts with ⟨e, he, hnone⟩ | ⟨p, f, hp, hf, -⟩
    · refine ⟨fun ⟨p, hp⟩ => ?_, fun h => ?_⟩
      · cases he.symm.trans hp
      · obtain ⟨f, hf⟩ := h rfl
        exact absurd hf (hnone f)
    · exact ⟨fun _ _ => ⟨f, hf⟩, fun _ => ⟨p, hp⟩⟩

end FormDirectives
