import FormDirectives.Proofs.Tree.Reading
import Mathlib.Data.List.Perm.Subperm

/-! Walking over a tree. From the pending places on, a walk visits what the tree holds there, each place before those
    below it, and goes on with whatever else is pending. Below the root it meets no place twice, so it ends, and it
    visits what the root reaches and nothing else. -/

namespace FormDirectives.Tree
open Forest
variable {t : Tree} {f : Forest Nat} {i p : Nat}

/-- A walk visits all that is held at the first pending places before it goes on with the others. -/
theorem Holds.walk? : ∀ {f : Forest Nat}, t.Holds f → ∀ (limit : Nat) (pending : List Nat),
    t.walk? (f.toList.length + limit) (f.roots ++ pending) = (t.walk? limit pending).map (f.toList ++ ·)
  | .nil, _, limit, pending => by simp
  | .cons i below rest, ⟨⟨_, hi⟩, hb, hr⟩, limit, pending => by
    have hlength : (Forest.cons i below rest).toList.length + limit =
        below.toList.length + (rest.toList.length + limit) + 1 := by
      simp only [toList_cons, List.length_cons, List.length_append]
      omega
    rw [hlength, roots_cons, List.cons_append, Tree.walk?, hi, hb.walk? _ (rest.roots ++ pending), hr.walk?]
    simp only [Option.map_map, Function.comp_def, toList_cons, List.cons_append, List.append_assoc]

theorem Holds.lt_size_of_mem : ∀ {f : Forest Nat}, t.Holds f → i ∈ f.toList → i < t.size
  | .cons j below rest, ⟨⟨hj, _⟩, hb, hr⟩, hi => by
    simp only [toList_cons, List.mem_cons, List.mem_append] at hi
    rcases hi with rfl | hi | hi
    · exact hj
    · exact hb.lt_size_of_mem hi
    · exact hr.lt_size_of_mem hi

theorem Holds.length_le_size (h : t.Holds f) (hf : f.toList.Nodup) : f.toList.length ≤ t.size := by
  have hsubset : f.toList ⊆ List.range t.size := fun i hi => List.mem_range.mpr (h.lt_size_of_mem hi)
  simpa using (List.subperm_of_subset hf hsubset).length_le

/-- A walk below the root ends, and what is held there is what it has visited. -/
theorem Holds.walk?_size (h : t.Holds (.cons 0 f .nil)) : t.walk? t.size (t.children 0) = some f.toList := by
  have hle : (Forest.cons 0 f .nil).toList.length ≤ t.size := h.length_le_size (h.nodup_of_root rfl)
  simp only [toList_cons, toList_nil, List.append_nil, List.length_cons] at hle
  have hwalk := h.2.1.walk? (t.size - f.toList.length) []
  rw [Nat.add_sub_cancel' (Nat.le_of_succ_le hle), List.append_nil, ← h.1.2] at hwalk
  simpa [Tree.walk?] using hwalk

theorem Holds.order_eq (h : t.Holds (.cons 0 f .nil)) : t.order = f.toList := by
  rw [order, h.walk?_size, Option.getD_some]

theorem Holds.family_sublist : ∀ {f : Forest Nat}, t.Holds f → p ∈ f.toList → (p :: t.children p).Sublist f.toList
  | .cons i below rest, ⟨⟨_, hi⟩, hb, hr⟩, hp => by
    simp only [toList_cons, List.mem_cons, List.mem_append] at hp ⊢
    rcases hp with rfl | hp | hp
    · rw [hi]
      exact .cons_cons p (below.roots_sublist.trans (List.sublist_append_left _ _))
    · exact ((hb.family_sublist hp).trans (List.sublist_append_left _ _)).cons i
    · exact ((hr.family_sublist hp).trans (List.sublist_append_right _ _)).cons i

/-- The places that were visited by a walk below the root. -/
structure Visited (t : Tree) (places : List Nat) : Prop where
  ended : t.walk? t.size (t.children 0) = some places
  reached : ∀ i, i ∈ places ↔ i ≠ 0 ∧ t.Reaches 0 i
  once : places.Nodup
  /-- A parent is visited before its children, and these are visited in their order. -/
  families : ∀ p, t.Reaches 0 p → (p :: t.children p).Sublist (0 :: places)

theorem visited_order (t : Tree) : t.Visited t.order := by
  obtain ⟨f, hf⟩ := t.exists_below
  have hplaces : (Forest.cons 0 f .nil).toList = 0 :: t.order := by
    rw [hf.order_eq, toList_cons, toList_nil, List.append_nil]
  have hnodup : (0 :: t.order).Nodup := hplaces ▸ hf.nodup_of_root rfl
  have hreached (i : Nat) : i ∈ 0 :: t.order ↔ t.Reaches 0 i := hplaces ▸ hf.mem_iff_reaches rfl
  obtain ⟨hfresh, hnodup⟩ := List.nodup_cons.mp hnodup
  refine ⟨?_, fun i => ⟨fun hi => ⟨?_, ?_⟩, fun ⟨hne, hi⟩ => ?_⟩, hnodup, fun p hp => ?_⟩
  · rw [hf.walk?_size, hf.order_eq]
  · rintro rfl
    exact hfresh hi
  · exact (hreached i).mp (List.mem_cons_of_mem 0 hi)
  · exact (List.mem_cons.mp ((hreached i).mpr hi)).resolve_left hne
  · rw [← hplaces]
    exact hf.family_sublist (hplaces ▸ (hreached p).mpr hp)

end FormDirectives.Tree
