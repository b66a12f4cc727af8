import FormDirectives.Proofs.Forest
import FormDirectives.Tree
import Mathlib.Logic.Relation

/-! Reading a tree from a place down. `Holds` says that a forest of places is what following the children gives;
    the roots of the forest determine it. From the root of a tree everything reachable is read, each place once:
    a place has one parent, so two subtrees that meet would have to share a root. -/

namespace FormDirectives.Tree
open Forest
variable {t : Tree} {f g : Forest Nat} {i p c : Nat}

/-- Every place of the forest is an entry's, and its children stand right below it. -/
def Holds (t : Tree) : Forest Nat → Prop
  | .nil => True
  | .cons i below rest => (i < t.size ∧ t.children i = below.roots) ∧ t.Holds below ∧ t.Holds rest

theorem Holds.unique : ∀ {f g : Forest Nat}, t.Holds f → t.Holds g → f.roots = g.roots → f = g
  | .nil, .nil, _, _, _ => rfl
  | .cons i below rest, .cons j below' rest', ⟨⟨_, hi⟩, hb, hr⟩, ⟨⟨_, hj⟩, hb', hr'⟩, h => by
    obtain ⟨rfl, hroots⟩ := List.cons.inj h
    rw [hb.unique hb' (hi.symm.trans hj), hr.unique hr' hroots]

theorem holds_append : t.Holds (f ++ g) ↔ t.Holds f ∧ t.Holds g := by
  induction f with
  | nil => simp [Holds]
  | cons i below rest _ ih => simp only [cons_append, Holds, ih, and_assoc]

/-- A forest is read as before when what the tree says about its places is kept. -/
theorem Holds.keep {u : Tree} : ∀ {f : Forest Nat}, t.Holds f →
    (∀ i ∈ f.toList, i < t.size → i < u.size ∧ u.children i = t.children i) → u.Holds f
  | .nil, _, _ => trivial
  | .cons i below rest, ⟨⟨hi, hc⟩, hb, hr⟩, keep => by
    simp only [toList_cons, List.mem_cons, List.mem_append] at keep
    obtain ⟨hi', hc'⟩ := keep i (Or.inl rfl) hi
    exact ⟨⟨hi', hc'.trans hc⟩, hb.keep fun j hj => keep j (Or.inr (Or.inl hj)),
      hr.keep fun j hj => keep j (Or.inr (Or.inr hj))⟩

/-! ### What is in a reading -/

theorem Holds.closed : ∀ {f : Forest Nat}, t.Holds f → p ∈ f.toList → c ∈ t.children p → c ∈ f.toList
  | .cons i below rest, ⟨⟨_, hi⟩, hb, hr⟩, hp, hc => by
    simp only [toList_cons, List.mem_cons, List.mem_append] at hp ⊢
    rcases hp with rfl | hp | hp
    · exact Or.inr (Or.inl (mem_toList_of_mem_roots (hi ▸ hc)))
    · exact Or.inr (Or.inl (hb.closed hp hc))
    · exact Or.inr (Or.inr (hr.closed hp hc))

theorem Holds.root_or_child : ∀ {f : Forest Nat}, t.Holds f → c ∈ f.toList →
    c ∈ f.roots ∨ ∃ p ∈ f.toList, c ∈ t.children p
  | .cons i below rest, ⟨⟨_, hi⟩, hb, hr⟩, hc => by
    simp only [toList_cons, List.mem_cons, List.mem_append] at hc ⊢
    rcases hc with rfl | hc | hc
    · exact Or.inl List.mem_cons_self
    · rcases hb.root_or_child hc with hroot | ⟨p, hp, hpc⟩
      · exact Or.inr ⟨i, Or.inl rfl, hi ▸ hroot⟩
      · exact Or.inr ⟨p, Or.inr (Or.inl hp), hpc⟩
    · rcases hr.root_or_child hc with hroot | ⟨p, hp, hpc⟩
      · exact Or.inl (List.mem_cons_of_mem i hroot)
      · exact Or.inr ⟨p, Or.inr (Or.inr hp), hpc⟩

/-- No root of the forest is the child of a place in it. -/
def Apart (t : Tree) (f : Forest Nat) : Prop := ∀ p ∈ f.toList, ∀ c ∈ t.children p, c ∉ f.roots

/-- Two readings meet only if a root of one of them is in the other. -/
theorem Holds.disjoint : ∀ {f : Forest Nat}, t.Holds f → t.Holds g → (∀ c ∈ f.roots, c ∉ g.toList) →
    (∀ p ∈ f.toList, ∀ c ∈ t.children p, c ∉ g.roots) → ∀ c ∈ f.toList, c ∉ g.toList
  | .nil, _, _, _, _, _, hc => by cases hc
  | .cons i below rest, ⟨⟨_, hi⟩, hb, hr⟩, hg, hroots, hchild, c, hc => by
    simp only [toList_cons, List.mem_cons, List.mem_append, roots_cons] at hc hroots hchild
    have hbelow : ∀ c ∈ below.roots, c ∉ g.toList := fun c hc hcg => by
      rw [← hi] at hc
      rcases hg.root_or_child hcg with hroot | ⟨p, hp, hpc⟩
      · exact hchild i (Or.inl rfl) c hc hroot
      · exact hroots i (Or.inl rfl) (t.linked.single hpc hc ▸ hp)
    rcases hc with rfl | hc | hc
    · exact hroots c (Or.inl rfl)
    · exact hb.disjoint hg hbelow (fun p hp => hchild p (Or.inr (Or.inl hp))) c hc
    · exact hr.disjoint hg (fun c hc => hroots c (Or.inr hc)) (fun p hp => hchild p (Or.inr (Or.inr hp))) c hc

theorem Holds.le_of_mem : ∀ {f : Forest Nat}, t.Holds f → (∀ c ∈ f.roots, i ≤ c) → ∀ c ∈ f.toList, i ≤ c
  | .nil, _, _, _, hc => by cases hc
  | .cons j below rest, ⟨⟨_, hj⟩, hb, hr⟩, hroots, c, hc => by
    simp only [toList_cons, List.mem_cons, List.mem_append, roots_cons] at hc hroots
    have hij : i ≤ j := hroots j (Or.inl rfl)
    rcases hc with rfl | hc | hc
    · exact hij
    · refine hb.le_of_mem (fun c hc => ?_) c hc
      rw [← hj] at hc
      exact Nat.le_trans hij (t.linked.forward hc).1
    · exact hr.le_of_mem (fun c hc => hroots c (Or.inr hc)) c hc

/-- A reading whose roots are different places and nobody's children in it meets no place twice. -/
theorem Holds.nodup : ∀ {f : Forest Nat}, t.Holds f → t.Apart f → f.roots.Nodup → f.toList.Nodup
  | .nil, _, _, _ => List.nodup_nil
  | .cons i below rest, ⟨⟨hlt, hi⟩, hb, hr⟩, hapart, hroots => by
    simp only [Apart, toList_cons, List.mem_cons, List.mem_append, roots_cons, not_or] at hapart
    obtain ⟨hfresh, hroots⟩ := List.nodup_cons.mp hroots
    have hself : ∀ c ∈ below.roots, i + 1 ≤ c := fun c hc => by
      rw [← hi] at hc
      have := (t.linked.forward hc).1
      have := (hapart i (Or.inl rfl) c hc).1
      omega
    have hibelow : i ∉ below.toList := fun h => by
      have := hb.le_of_mem hself i h
      omega
    have hirest : i ∉ rest.toList := fun h => by
      rcases hr.root_or_child h with h | ⟨p, hp, hc⟩
      · exact hfresh h
      · exact (hapart p (Or.inr (Or.inr hp)) i hc).1 rfl
    have hbapart : t.Apart below := fun p hp c hc hroot => by
      rw [← hi] at hroot
      exact hibelow (t.linked.single hroot hc ▸ hp)
    have hrapart : t.Apart rest := fun p hp c hc => (hapart p (Or.inr (Or.inr hp)) c hc).2
    have hbroots : ∀ c ∈ below.roots, c ∉ rest.toList := fun c hc h => by
      rw [← hi] at hc
      rcases hr.root_or_child h with h | ⟨p, hp, hpc⟩
      · exact (hapart i (Or.inl rfl) c hc).2 h
      · exact hirest (t.linked.single hpc hc ▸ hp)
    have hdisjoint := hb.disjoint hr hbroots fun p hp c hc => (hapart p (Or.inr (Or.inl hp)) c hc).2
    have hbnodup : below.roots.Nodup := hi ▸ (t.linked.ascending i).imp Nat.ne_of_lt
    rw [toList_cons, List.nodup_cons, List.mem_append, not_or, List.nodup_append]
    exact ⟨⟨hibelow, hirest⟩, hb.nodup hbapart hbnodup, hr.nodup hrapart hroots,
      fun a ha b hb hab => hdisjoint a ha (hab ▸ hb)⟩

/-! ### Reading from the root -/

/-- The place `c` is reached from `p` by going from parents to children. -/
def Reaches (t : Tree) : Nat → Nat → Prop := Relation.ReflTransGen fun p c => c ∈ t.children p

/-- Nothing reachable is its own child: it would have no other parent to be reached through. -/
theorem not_mem_children_of_reaches (h : t.Reaches 0 i) : i ∉ t.children i := by
  induction h with
  | refl => exact t.linked.top 0
  | tail _ hc ih => exact fun hself => ih (t.linked.single hself hc ▸ hc)

theorem lt_of_reaches (h : t.Reaches 0 p) (hc : c ∈ t.children p) : p < c := by
  refine Nat.lt_of_le_of_ne (t.linked.forward hc).1 fun heq => ?_
  exact not_mem_children_of_reaches h (heq ▸ hc)

theorem lt_size_of_reaches (h : t.Reaches 0 i) : i < t.size := by
  cases h with
  | refl => exact t.linked.size_pos
  | tail _ hc => exact (t.linked.forward hc).2

theorem exists_holds_of_forall : ∀ {places : List Nat}, (∀ i ∈ places, ∃ f : Forest Nat, f.roots = [i] ∧ t.Holds f) →
    ∃ f : Forest Nat, f.roots = places ∧ t.Holds f
  | [], _ => ⟨.nil, rfl, trivial⟩
  | i :: rest, h => by
    obtain ⟨f, hroots, hf⟩ := h i List.mem_cons_self
    obtain ⟨g, hroots', hg⟩ := exists_holds_of_forall fun j hj => h j (List.mem_cons_of_mem i hj)
    exact ⟨f ++ g, by rw [roots_append, hroots, hroots', List.singleton_append], holds_append.mpr ⟨hf, hg⟩⟩

/-- Whatever is reachable can be read: its children stand behind it. -/
theorem exists_holds_of_reaches {i : Nat} (h : t.Reaches 0 i) : ∃ f : Forest Nat, f.roots = [i] ∧ t.Holds f := by
  have hlt := lt_size_of_reaches h
  have hchildren : ∀ c ∈ t.children i, ∃ f : Forest Nat, f.roots = [c] ∧ t.Holds f := fun c hc => by
    have := lt_of_reaches h hc
    exact exists_holds_of_reaches (h.tail hc)
  obtain ⟨below, hroots, hb⟩ := exists_holds_of_forall hchildren
  exact ⟨.cons i below .nil, rfl, ⟨hlt, hroots.symm⟩, hb, trivial⟩
termination_by t.size - i

theorem Holds.reaches : ∀ {f : Forest Nat}, t.Holds f → (∀ i ∈ f.roots, t.Reaches 0 i) → ∀ i ∈ f.toList, t.Reaches 0 i
  | .nil, _, _, _, hi => by cases hi
  | .cons j below rest, ⟨⟨_, hj⟩, hb, hr⟩, hroots, i, hi => by
    simp only [toList_cons, List.mem_cons, List.mem_append, roots_cons] at hi hroots
    rcases hi with rfl | hi | hi
    · exact hroots i (Or.inl rfl)
    · exact hb.reaches (fun c hc => (hroots j (Or.inl rfl)).tail (hj ▸ hc)) i hi
    · exact hr.reaches (fun c hc => hroots c (Or.inr hc)) i hi

/-- What is read from the root. -/
theorem exists_reading (t : Tree) : ∃ f : Forest Nat, f.roots = [0] ∧ t.Holds f :=
  exists_holds_of_reaches .refl

theorem exists_below (t : Tree) : ∃ f : Forest Nat, t.Holds (.cons 0 f .nil) := by
  obtain ⟨f, hroots, hf⟩ := t.exists_reading
  obtain _ | ⟨i, below, rest⟩ := f
  · cases hroots
  · obtain ⟨rfl, -⟩ := List.cons.inj hroots
    exact ⟨below, hf.1, hf.2.1, trivial⟩

theorem Holds.mem_iff_reaches (h : t.Holds f) (hroots : f.roots = [0]) : i ∈ f.toList ↔ t.Reaches 0 i := by
  constructor
  · refine h.reaches (fun j hj => ?_) i
    rw [hroots, List.mem_singleton] at hj
    exact hj ▸ .refl
  · intro hi
    induction hi with
    | refl => exact mem_toList_of_mem_roots (by simp [hroots])
    | tail _ hc ih => exact h.closed ih hc

theorem Holds.nodup_of_root (h : t.Holds f) (hroots : f.roots = [0]) : f.toList.Nodup := by
  refine h.nodup (fun p _ c hc hroot => ?_) (by simp [hroots])
  rw [hroots, List.mem_singleton] at hroot
  exact t.linked.top p (hroot ▸ hc)

end FormDirectives.Tree
