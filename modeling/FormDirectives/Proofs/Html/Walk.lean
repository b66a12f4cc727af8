import FormDirectives.Html.Render
import FormDirectives.Proofs.Tree.Reading

/-! The walk over the slots renders the forest that a tree holds. Going down from the last entry, a slot that no
    entry has taken yet holds the markup of all that is read from its place (`Filled`). An entry takes the slots
    of its children when its turn comes; they stand behind it and nobody else takes them, so their markup is
    there exactly once. -/

namespace FormDirectives

/-- The markup of each tree of a forest: that of the element at its root, around what stands below it. -/
def Forest.markups (escaped : Bool) : Forest Node → List String
  | .nil => []
  | .cons n below rest => n.element.markup escaped (below.markups escaped) :: rest.markups escaped

namespace Element

/-- The root shows what stands below it and nothing else. -/
@[simp] theorem markup_root (escaped : Bool) (below : List String) :
    root.markup escaped below = "\n".intercalate below := by
  simp [markup, Html.html, Html.pieces, Html.Piece.html, String.join]

theorem content_notMem_pieces {e : Element} (h : e.isContainer = false) : .content ∉ Html.pieces e := by
  cases e with
  | root | form action method | group label => cases h
  | select name label options source =>
    simp only [Html.pieces]
    split <;> simp [Html.selectPieces, Html.labelPieces, Html.optionPieces]
  | _ => simp [Html.pieces, Html.labelPieces]

/-- Only containers show what stands below them. -/
theorem markup_of_leaf {e : Element} (h : e.isContainer = false) (escaped : Bool) (below : List String) :
    e.markup escaped below = e.markup escaped [] := by
  unfold markup Html.html
  congr 1
  refine List.map_congr_left fun piece hpiece => ?_
  cases piece with
  | content => exact absurd hpiece (content_notMem_pieces h)
  | _ => rfl

end Element

/-! ### Slots -/

namespace Html
variable {escaped : Bool} {slots : Array String} {places : List Nat} {i j : Nat} {e : Entry}

theorem size_blank : ∀ {places : List Nat} {slots : Array String}, (blank slots places).size = slots.size
  | [], _ => rfl
  | i :: rest, slots => by
    show (blank (slots.setIfInBounds i "") rest).size = slots.size
    rw [size_blank, Array.size_setIfInBounds]

theorem getElem?_blank : ∀ {places : List Nat} {slots : Array String}, j ∉ places →
    (blank slots places)[j]? = slots[j]?
  | [], _, _ => rfl
  | i :: rest, slots, h => by
    rw [List.mem_cons, not_or] at h
    show (blank (slots.setIfInBounds i "") rest)[j]? = slots[j]?
    rw [getElem?_blank h.2, Array.getElem?_setIfInBounds_ne (Ne.symm h.1)]

theorem size_fillSlot : (fillSlot escaped i e slots).size = slots.size := by
  rw [fillSlot, Array.size_setIfInBounds, size_blank]

theorem getElem?_fillSlot_self (h : i < slots.size) : (fillSlot escaped i e slots)[i]? =
    some (e.node.element.markup escaped (e.children.map fun c => slots[c]?.getD "")) := by
  rw [fillSlot, Array.getElem?_setIfInBounds_self_of_lt (by rw [size_blank]; exact h)]

theorem getElem?_fillSlot_of_ne (hi : i ≠ j) (hj : j ∉ e.children) :
    (fillSlot escaped i e slots)[j]? = slots[j]? := by
  rw [fillSlot, Array.getElem?_setIfInBounds_ne hi, getElem?_blank hj]

end Html

/-! ### The walk -/

namespace Tree
variable {escaped : Bool} {t : Tree} {f : Forest Nat} {slots : Array String} {k : Nat}

/-- From place `k` on, each slot that no entry from there on takes holds the markup of what is read from it. -/
structure Filled (escaped : Bool) (t : Tree) (k : Nat) (slots : Array String) : Prop where
  size : slots.size = t.size
  markup : ∀ {i : Nat} {below : Forest Nat}, t.Holds (.cons i below .nil) → k ≤ i →
    (∀ p, k ≤ p → i ∉ t.children p) →
    slots[i]? = some ((t.nodeAt i).element.markup escaped ((below.map t.nodeAt).markups escaped))

theorem Filled.markups (hf : Filled escaped t k slots) : ∀ {f : Forest Nat}, t.Holds f →
    (∀ i ∈ f.roots, k ≤ i ∧ ∀ p, k ≤ p → i ∉ t.children p) →
    f.roots.map (fun i => slots[i]?.getD "") = (f.map t.nodeAt).markups escaped
  | .nil, _, _ => rfl
  | .cons i below rest, ⟨hi, hb, hr⟩, hroots => by
    obtain ⟨hki, hfree⟩ := hroots i List.mem_cons_self
    have hslot := hf.markup ⟨hi, hb, trivial⟩ hki hfree
    have hrest := hf.markups hr fun j hj => hroots j (List.mem_cons_of_mem i hj)
    simp only [Forest.roots_cons, List.map_cons, hslot, Option.getD_some, hrest, Forest.map_cons, Forest.markups]

/-- Filling one more slot: its entry finds the markup of its children, which nobody behind it has taken. -/
theorem Filled.fillSlot (hf : Filled escaped t (k + 1) slots) (hk : k < t.entries.size) :
    Filled escaped t k (Html.fillSlot escaped k t.entries[k] slots) where
  size := Html.size_fillSlot.trans hf.size
  markup {i below} hi hki hfree := by
    have hentry : t.entries[k]? = some t.entries[k] := Array.getElem?_eq_getElem hk
    have hchildren : t.children k = t.entries[k].children := Entry.childrenAt_eq hentry
    have hnode : t.nodeAt k = t.entries[k].node := nodeAt_eq hentry
    by_cases hne : k = i
    · subst hne
      obtain ⟨⟨_, hroots⟩, hb, _⟩ := hi
      have htaken : ∀ c ∈ below.roots, k + 1 ≤ c ∧ ∀ p, k + 1 ≤ p → c ∉ t.children p := fun c hc => by
        rw [← hroots] at hc
        refine ⟨Nat.lt_of_le_of_ne (t.linked.forward hc).1 fun h => ?_, fun p hp hcp => ?_⟩
        · exact hfree k (Nat.le_refl k) (h ▸ hc)
        · exact absurd (t.linked.single hc hcp) (by omega)
      rw [Html.getElem?_fillSlot_self (by rw [hf.size]; exact hk), ← hchildren, hroots, hf.markups hb htaken,
        hnode]
    · have hnot : i ∉ t.entries[k].children := hchildren ▸ hfree k (Nat.le_refl k)
      rw [Html.getElem?_fillSlot_of_ne hne hnot]
      exact hf.markup hi (by omega) fun p hp => hfree p (by omega)

/-- What holds behind the last place and is kept from each place to the one before it holds at the first. -/
theorem foldRev_induction {α : Type} {motive : Nat → α → Prop} : ∀ {n : Nat} {step : (i : Nat) → i < n → α → α} {a : α},
    motive n a → (∀ i h a, motive (i + 1) a → motive i (step i h a)) → motive 0 (n.foldRev step a)
  | 0, _, _, ha, _ => ha
  | n + 1, step, a, ha, hstep => by
    rw [Nat.foldRev_succ]
    exact foldRev_induction (hstep n (Nat.lt_succ_self n) a ha) fun i h => hstep i (Nat.lt_succ_of_lt h)

theorem filled_slots (escaped : Bool) (t : Tree) : Filled escaped t 0 (t.slots escaped) := by
  refine foldRev_induction (motive := Filled escaped t) ?_ fun i h _ hf => hf.fillSlot h
  refine ⟨Array.size_replicate, fun ⟨⟨hi, _⟩, _⟩ hle _ => ?_⟩
  exact absurd hi (Nat.not_lt.mpr hle)

/-- The slot of the root ends up with the markup of what is read from the root. -/
theorem markups_reading (escaped : Bool) (h : t.Holds f) (hroots : f.roots = [0]) :
    (f.map t.nodeAt).markups escaped = [t.html escaped] := by
  have hfilled := (filled_slots escaped t).markups h fun i hi => by
    rw [hroots, List.mem_singleton] at hi
    exact ⟨Nat.zero_le i, fun p _ => hi ▸ t.linked.top p⟩
  rw [← hfilled, hroots, List.map_singleton, html]

/-- However a tree was grown, its HTML is the markup of the one forest read from its root. The forest has each
    place that the root reaches once and no other, so nothing is shown twice and what nothing reaches is not
    shown. The root shows what stands below it and nothing else, and only containers show anything of it. -/
theorem html_grown (attempts : List (Node × Int)) (escaped : Bool) :
    (∃ f : Forest Nat, (∀ g : Forest Nat, g.roots = [0] ∧ (start.addAll attempts).Holds g ↔ g = f) ∧
      [(start.addAll attempts).html escaped] = (f.map (start.addAll attempts).nodeAt).markups escaped ∧
      f.toList.Nodup ∧ ∀ i, i ∈ f.toList ↔ (start.addAll attempts).Reaches 0 i) ∧
    (∀ below, Element.root.markup escaped below = "\n".intercalate below) ∧
    ∀ (e : Element) (below : List String), e.isContainer = true ∨ e.markup escaped below = e.markup escaped [] := by
  refine ⟨?_, fun below => Element.markup_root escaped below, fun e below => ?_⟩
  · obtain ⟨f, hroots, hf⟩ := exists_reading (start.addAll attempts)
    refine ⟨f, fun g => ⟨fun ⟨hg, hheld⟩ => ?_, fun h => h ▸ ⟨hroots, hf⟩⟩, ?_, ?_, ?_⟩
    · exact hheld.unique hf (hg.trans hroots.symm)
    · exact (markups_reading escaped hf hroots).symm
    · exact hf.nodup_of_root hroots
    · exact fun i => hf.mem_iff_reaches hroots
  · cases hcontainer : e.isContainer with
    | true => exact Or.inl rfl
    | false => exact Or.inr (Element.markup_of_leaf hcontainer escaped below)

end Tree
end FormDirectives
