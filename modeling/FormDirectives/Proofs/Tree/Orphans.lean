import FormDirectives.Proofs.Html.Interchange
import FormDirectives.Proofs.Tree.Growth
import FormDirectives.Proofs.Tree.Outline

/-! Orphans. A node that finds no parent is stored all the same, and later attempts may add nodes below it. None of
    this is ever seen from the root: the tree looks like one in which the orphan, and whatever names a place below it,
    was never stored. The entries of that tree stand at other places, so the attempts on it name their parents by
    other indexes, and what is compared is the forest that is read from the root. -/

namespace FormDirectives.Tree
variable {t u : Tree} {n : Node} {index : Int} {e : AddError} {kept : List Nat} {p c i : Nat}

/-! ### Trees that look alike -/

/-- All that is seen of a tree from its root. -/
structure Alike (t u : Tree) : Prop where
  html : ∀ escaped, t.html escaped = u.html escaped
  visited : t.order.map t.nodeAt = u.order.map u.nodeAt
  sources : t.sources = u.sources
  outline : ∀ depth, t.outlineWithin? depth 0 = u.outlineWithin? depth 0

theorem Reads.visited {f : Forest Node} (h : t.Reads f) : t.order.map t.nodeAt = f.toList := by
  obtain ⟨places, hplaces, rfl⟩ := h
  rw [hplaces.order_eq, Forest.toList_map]

/-- What is seen of a tree is the forest that is read from its root. -/
theorem Reads.alike {f : Forest Node} (ht : t.Reads f) (hu : u.Reads f) : t.Alike u where
  html escaped := (ht.html_eq escaped).trans (hu.html_eq escaped).symm
  visited := ht.visited.trans hu.visited.symm
  sources := ht.sources_eq.trans hu.sources_eq.symm
  outline depth := (ht.outlineWithin?_eq depth).trans (hu.outlineWithin?_eq depth).symm

/-! ### Attempts that fail -/

/-- Why an attempt finds no parent: its index names no place, or that of a node that can have no children. -/
inductive Fails (t : Tree) (n : Node) (index : Int) : AddError → Prop
  | noSuchParent (named : ∀ p, ¬ Names index t.size p) : Fails t n index .noSuchParent
  | leafParent (p : Nat) (named : Names index t.size p) (leaf : ((t.store n).nodeAt p).isContainer = false) :
      Fails t n index (.leafParent ((t.store n).nodeAt p).element)

theorem add_eq_store (h : (t.add n index).2 = .error e) : (t.add n index).1 = t.store n ∧ t.Fails n index e := by
  unfold add at h ⊢
  simp only at h ⊢
  split at h
  · next hplace =>
    cases h
    refine ⟨rfl, .noSuchParent fun p hp => ?_⟩
    rw [place?_store.mpr hp] at hplace
    cases hplace
  · next p hplace =>
    split at h
    · next hnone =>
      have hlt := (place?_eq_some_iff.mp hplace).1
      exact absurd (Array.getElem?_eq_none_iff.mp hnone) (Nat.not_le.mpr hlt)
    · next e he =>
      have hnode : (t.store n).nodeAt p = e.node := nodeAt_eq he
      split at h
      · cases h
      · next hc =>
        cases h
        rw [dif_neg hc, ← hnode]
        exact ⟨rfl, .leafParent p (place?_store.mp hplace) (by rw [hnode]; exact Bool.eq_false_iff.mpr hc)⟩

/-! ### Storing and attaching -/

theorem children_of_size_le (hi : t.size ≤ i) : t.children i = [] := by
  rw [children, Entry.childrenAt, Array.getElem?_eq_none hi]
  rfl

theorem nodeAt_store_of_lt (hi : i < t.size) : (t.store n).nodeAt i = t.nodeAt i := by
  have hlt : i < t.nodes.length := by rwa [length_nodes]
  simp only [nodeAt, node?_eq, nodes_store, List.getElem?_append_left hlt]

theorem nodeAt_store_size : (t.store n).nodeAt t.size = n := by
  simp only [nodeAt, node?_eq, nodes_store, ← length_nodes, List.getElem?_concat_length, Option.getD_some]

theorem size_store : (t.store n).size = t.size + 1 := Array.size_push ..

theorem size_attach (h : Linked.Takes t.entries p c) : (t.attach p c h).size = t.size := Array.size_modify ..

/-- What an attempt does once its index names a place. -/
theorem add_of_place (hplace : (t.store n).place? index = some p) :
    ((∃ h, (t.add n index).1 = (t.store n).attach p t.size h) ∧ ((t.store n).nodeAt p).isContainer = true) ∨
      (t.add n index).1 = t.store n ∧ ((t.store n).nodeAt p).isContainer = false := by
  rcases t.add_cases n index with ⟨q, h, hq, heq⟩ | ⟨⟨e, heq⟩, hleaf⟩
  · obtain rfl := Option.some.inj (hplace.symm.trans hq)
    obtain ⟨e, he, hcontainer⟩ := h.container
    exact Or.inl ⟨⟨h, by rw [heq]⟩, by rwa [nodeAt_eq he]⟩
  · obtain ⟨e, he⟩ : ∃ e, (t.store n).entries[p]? = some e :=
      ⟨_, Array.getElem?_eq_getElem (place?_eq_some_iff.mp hplace).1⟩
    exact Or.inr ⟨by rw [heq], by rw [nodeAt_eq he, hleaf p e hplace he]⟩

theorem add_of_no_place (hplace : (t.store n).place? index = none) : (t.add n index).1 = t.store n := by
  rcases t.add_cases n index with ⟨p, -, hp, -⟩ | ⟨⟨e, heq⟩, -⟩
  · rw [hplace] at hp
    cases hp
  · rw [heq]

/-- An index that is out of range in a tree is so in a smaller one. -/
theorem no_place_of_size_le (hle : t.size ≤ u.size) (hplace : (u.store n).place? index = none) :
    (t.store n).place? index = none := by
  have hnames (p : Nat) : ¬ Names index u.size p := fun hp => by
    rw [place?_store.mpr hp] at hplace
    cases hplace
  refine Option.eq_none_iff_forall_ne_some.mpr fun p hp => ?_
  obtain ⟨hp, hindex | hindex⟩ := place?_store.mp hp
  · exact hnames p ⟨by omega, Or.inl hindex⟩
  · exact hnames (p + (u.size - t.size)) ⟨by omega, Or.inr (by omega)⟩

/-! ### Sparing -/

/-- The attempts on a tree that are left when those are taken out that name a place which is not kept. The others name
    their parents by the positions of these among the kept places, where the new ones come last. -/
def sparing (kept : List Nat) (t : Tree) : List (Node × Int) → List (Node × Int)
  | [] => []
  | (n, index) :: later =>
    let places := kept ++ [t.size]
    let after := (t.add n index).1
    match (t.store n).place? index with
    | none => (n, index) :: sparing places after later
    | some p =>
      if p ∈ places then (n, (places.idxOf p : Int)) :: sparing places after later else sparing kept after later

/-- The kept places of `u` hang together as the entries of `t` do, each at its position among them, and nothing that is
    not kept hangs on them. -/
structure Spared (kept : List Nat) (t u : Tree) : Prop where
  root : kept.head? = some 0
  size : t.size = kept.length
  size_le : t.size ≤ u.size
  lt_size : ∀ p ∈ kept, p < u.size
  node : ∀ p ∈ kept, t.nodeAt (kept.idxOf p) = u.nodeAt p
  children : ∀ p ∈ kept, t.children (kept.idxOf p) = (u.children p).map kept.idxOf
  closed : ∀ {p c}, c ∈ u.children p → (c ∈ kept ↔ p ∈ kept)

namespace Spared

theorem zero_mem (h : Spared kept t u) : 0 ∈ kept := List.mem_of_mem_head? h.root

theorem idxOf_zero (h : Spared kept t u) : kept.idxOf 0 = 0 := by
  obtain ⟨places, rfl⟩ := List.head?_eq_some_iff.mp h.root
  exact List.idxOf_cons_self

theorem idxOf_lt_size (h : Spared kept t u) (hp : p ∈ kept) : kept.idxOf p < t.size := by
  rw [h.size]
  exact List.idxOf_lt_length_of_mem hp

theorem idxOf_size (h : Spared kept t u) : (kept ++ [u.size]).idxOf u.size = t.size := by
  have hnew : u.size ∉ kept := fun hmem => Nat.lt_irrefl _ (h.lt_size _ hmem)
  rw [List.idxOf_append_of_notMem hnew, List.idxOf_cons_self, h.size, Nat.add_zero]

theorem mem_of_reaches (h : Spared kept t u) (hpc : u.Reaches p c) : c ∈ kept ↔ p ∈ kept := by
  induction hpc with
  | refl => exact Iff.rfl
  | tail _ hc ih => exact (h.closed hc).trans ih

theorem holds (h : Spared kept t u) : ∀ {f : Forest Nat}, u.Holds f → (∀ i ∈ f.roots, i ∈ kept) →
    t.Holds (f.map kept.idxOf)
  | .nil, _, _ => trivial
  | .cons i below rest, ⟨⟨_, hi⟩, hb, hr⟩, hroots => by
    have hkept : i ∈ kept := hroots i List.mem_cons_self
    have hbelow : ∀ c ∈ below.roots, c ∈ kept := fun c hc => (h.closed (hi ▸ hc)).mpr hkept
    have hrest : ∀ c ∈ rest.roots, c ∈ kept := fun c hc => hroots c (List.mem_cons_of_mem i hc)
    refine ⟨⟨h.idxOf_lt_size hkept, ?_⟩, h.holds hb hbelow, h.holds hr hrest⟩
    rw [h.children i hkept, hi, Forest.roots_map]

/-- Both trees read as the same forest. -/
theorem reads (h : Spared kept t u) {f : Forest Node} (hf : u.Reads f) : t.Reads f := by
  obtain ⟨places, hplaces, rfl⟩ := hf
  have hholds := h.holds hplaces fun i hi => List.mem_singleton.mp hi ▸ h.zero_mem
  rw [Forest.map_cons, h.idxOf_zero] at hholds
  refine ⟨places.map kept.idxOf, hholds, ?_⟩
  rw [Forest.map_map]
  refine Forest.map_congr fun i hi => h.node i ((h.mem_of_reaches ?_).mpr h.zero_mem)
  exact (hplaces.mem_iff_reaches rfl).mp (List.mem_cons_of_mem 0 (List.mem_append_left _ hi))

/-! ### Steps -/

/-- What is stored without a parent hangs on nothing, so it may be left out. -/
theorem store_left (h : Spared kept t u) : Spared kept t (u.store n) where
  root := h.root
  size := h.size
  size_le := Nat.le_trans h.size_le (by rw [size_store]; exact Nat.le_succ _)
  lt_size p hp := Nat.lt_trans (h.lt_size p hp) (by rw [size_store]; exact Nat.lt_succ_self _)
  node p hp := (h.node p hp).trans (nodeAt_store_of_lt (h.lt_size p hp)).symm
  children p hp := by rw [children_store, h.children p hp]
  closed hc := h.closed (children_store u n _ ▸ hc)

/-- It may as well be kept, behind all else that is. -/
theorem store (h : Spared kept t u) : Spared (kept ++ [u.size]) (t.store n) (u.store n) := by
  have hold {p : Nat} (hp : p ∈ kept) : (kept ++ [u.size]).idxOf p = kept.idxOf p := List.idxOf_append_of_mem hp
  have hlast : (kept ++ [u.size]).idxOf u.size = t.size := h.idxOf_size
  have hcases {p : Nat} (hp : p ∈ kept ++ [u.size]) : p ∈ kept ∨ p = u.size :=
    (List.mem_append.mp hp).imp_right List.mem_singleton.mp
  refine ⟨?_, ?_, ?_, ?_, ?_, ?_, ?_⟩
  · rw [List.head?_append, h.root]
    rfl
  · rw [size_store, h.size, List.length_append, List.length_singleton]
  · rw [size_store, size_store]
    exact Nat.succ_le_succ h.size_le
  · intro p hp
    rw [size_store]
    rcases hcases hp with hp | rfl
    · exact Nat.lt_succ_of_lt (h.lt_size p hp)
    · exact Nat.lt_succ_self _
  · intro p hp
    rcases hcases hp with hp | rfl
    · rw [hold hp, nodeAt_store_of_lt (h.idxOf_lt_size hp), nodeAt_store_of_lt (h.lt_size p hp), h.node p hp]
    · rw [hlast, nodeAt_store_size, nodeAt_store_size]
  · intro p hp
    rw [children_store, children_store]
    rcases hcases hp with hp | rfl
    · rw [hold hp, h.children p hp]
      exact List.map_congr_left fun c hc => (hold ((h.closed hc).mpr hp)).symm
    · rw [hlast, children_of_size_le (Nat.le_refl _), children_of_size_le (Nat.le_refl _), List.map_nil]
  · intro p c hc
    rw [children_store] at hc
    -- The stored place is no child yet, and has none.
    have hp : p ≠ u.size := by
      rintro rfl
      rw [children_of_size_le (Nat.le_refl _)] at hc
      cases hc
    have hc' : c ≠ u.size := Nat.ne_of_lt (u.linked.forward hc).2
    simp only [List.mem_append, List.mem_singleton, hp, hc', or_false]
    exact h.closed hc

/-- Kept entries and others do not mix when an entry becomes a child of one like it. -/
theorem closed_attach (h : Spared kept t u) (hu : Linked.Takes u.entries p c) (hpc : c ∈ kept ↔ p ∈ kept)
    {q d : Nat} (hd : d ∈ (u.attach p c hu).children q) : d ∈ kept ↔ q ∈ kept := by
  rw [children_attach] at hd
  split at hd
  · next heq =>
    subst heq
    rcases List.mem_append.mp hd with hd | hd
    · exact h.closed hd
    · rwa [List.mem_singleton.mp hd]
  · exact h.closed hd

theorem attach_left (h : Spared kept t u) (hu : Linked.Takes u.entries p c) (hp : p ∉ kept) (hc : c ∉ kept) :
    Spared kept t (u.attach p c hu) where
  root := h.root
  size := h.size
  size_le := h.size_le.trans_eq (size_attach hu).symm
  lt_size q hq := (h.lt_size q hq).trans_eq (size_attach hu).symm
  node q hq := (h.node q hq).trans (nodeAt_congr (nodes_attach u p c hu).symm q)
  children q hq := by
    rw [children_attach, if_neg, h.children q hq]
    rintro rfl
    exact hp hq
  closed := h.closed_attach hu (iff_of_false hc hp)

/-- A kept entry that takes another does so in both trees. -/
theorem attach (h : Spared kept t u) (hp : p ∈ kept) (hc : c ∈ kept)
    (ht : Linked.Takes t.entries (kept.idxOf p) (kept.idxOf c)) (hu : Linked.Takes u.entries p c) :
    Spared kept (t.attach (kept.idxOf p) (kept.idxOf c) ht) (u.attach p c hu) where
  root := h.root
  size := (size_attach ht).trans h.size
  size_le := by
    rw [size_attach, size_attach]
    exact h.size_le
  lt_size q hq := (h.lt_size q hq).trans_eq (size_attach hu).symm
  node q hq := by rw [nodeAt_congr (nodes_attach t _ _ ht), nodeAt_congr (nodes_attach u p c hu), h.node q hq]
  children q hq := by
    rw [children_attach, children_attach, h.children q hq]
    by_cases hpq : p = q
    · rw [if_pos hpq, if_pos (congrArg kept.idxOf hpq), List.map_append, List.map_singleton]
    · rw [if_neg hpq, if_neg fun heq => hpq ((List.idxOf_inj hp).mp heq)]
  closed := h.closed_attach hu (iff_of_true hc hp)

/-- An attempt that names a kept place, or its own, is made on both trees. -/
theorem add_kept (h : Spared kept t u) (hplace : (u.store n).place? index = some p) (hp : p ∈ kept ++ [u.size]) :
    Spared (kept ++ [u.size]) (t.add n ((kept ++ [u.size]).idxOf p : Int)).1 (u.add n index).1 := by
  have hstore : Spared (kept ++ [u.size]) (t.store n) (u.store n) := h.store
  have hposition : (t.store n).place? ((kept ++ [u.size]).idxOf p : Int) = some ((kept ++ [u.size]).idxOf p) :=
    place?_eq_some_iff.mpr ⟨hstore.idxOf_lt_size hp, Or.inl rfl⟩
  have hsame := hstore.node p hp
  rcases add_of_place hposition with ⟨⟨ht, heqt⟩, hcontainer⟩ | ⟨heqt, hleaf⟩
  · rcases add_of_place hplace with ⟨⟨hu, hequ⟩, -⟩ | ⟨-, hleaf⟩
    · have hlast : u.size ∈ kept ++ [u.size] := List.mem_append_right _ (List.mem_singleton_self _)
      have hsize : (kept ++ [u.size]).idxOf u.size = t.size := h.idxOf_size
      simp only [← hsize] at ht heqt
      rw [heqt, hequ]
      exact hstore.attach hp hlast ht hu
    · rw [hsame, hleaf] at hcontainer
      cases hcontainer
  · rcases add_of_place hplace with ⟨-, hcontainer⟩ | ⟨hequ, -⟩
    · rw [hsame, hcontainer] at hleaf
      cases hleaf
    · rw [heqt, hequ]
      exact hstore

/-- An attempt that names another place is made on one tree only. -/
theorem add_left (h : Spared kept t u) (hplace : (u.store n).place? index = some p) (hp : p ∉ kept ++ [u.size]) :
    Spared kept t (u.add n index).1 := by
  have hstore : Spared kept t (u.store n) := h.store_left
  have hnew : u.size ∉ kept := fun hmem => Nat.lt_irrefl _ (h.lt_size _ hmem)
  rcases add_of_place hplace with ⟨⟨hu, hequ⟩, -⟩ | ⟨hequ, -⟩
  · rw [hequ]
    exact hstore.attach_left hu (fun hmem => hp (List.mem_append_left _ hmem)) hnew
  · rw [hequ]
    exact hstore

theorem add_nowhere (h : Spared kept t u) (hplace : (u.store n).place? index = none) :
    Spared (kept ++ [u.size]) (t.add n index).1 (u.add n index).1 := by
  rw [add_of_no_place hplace, add_of_no_place (no_place_of_size_le h.size_le hplace)]
  exact h.store

/-- An attempt is made on both trees or on one, and what was left out before it stays so. -/
theorem step (h : Spared kept t u) (n : Node) (index : Int) : ∃ places t',
    (∀ later, t.addAll (sparing kept u ((n, index) :: later)) = t'.addAll (sparing places (u.add n index).1 later)) ∧
      Spared places t' (u.add n index).1 ∧ ∀ c < u.size, c ∈ places → c ∈ kept := by
  have hold : ∀ c < u.size, c ∈ kept ++ [u.size] → c ∈ kept := fun c hc hmem =>
    (List.mem_append.mp hmem).resolve_right fun heq => Nat.ne_of_lt hc (List.mem_singleton.mp heq)
  cases hplace : (u.store n).place? index with
  | none => exact ⟨_, _, fun later => by rw [sparing, hplace]; rfl, h.add_nowhere hplace, hold⟩
  | some p =>
    by_cases hp : p ∈ kept ++ [u.size]
    · exact ⟨_, _, fun later => by simp only [sparing, hplace, if_pos hp]; rfl, h.add_kept hplace hp, hold⟩
    · exact ⟨_, _, fun later => by simp only [sparing, hplace, if_neg hp], h.add_left hplace hp, fun _ _ hc => hc⟩

theorem addAll : ∀ (later : List (Node × Int)) {kept : List Nat} {t u : Tree}, Spared kept t u →
    ∃ places, Spared places (t.addAll (sparing kept u later)) (u.addAll later) ∧ ∀ c < u.size, c ∈ places → c ∈ kept
  | [], kept, _, _, h => ⟨kept, h, fun _ _ hc => hc⟩
  | (n, index) :: later, kept, t, u, h => by
    obtain ⟨middle, t', hrest, hmiddle, hkept⟩ := h.step n index
    obtain ⟨places, hplaces, hkept'⟩ := hmiddle.addAll later
    rw [hrest later]
    refine ⟨places, hplaces, fun c hc hmem => hkept c hc (hkept' c ?_ hmem)⟩
    rw [size_add]
    exact Nat.lt_succ_of_lt hc

end Spared

theorem idxOf_range {m : Nat} (hp : p < m) : (List.range m).idxOf p = p := by
  have hposition := List.nodup_range.idxOf_getElem p (by rwa [List.length_range])
  rwa [List.getElem_range] at hposition

/-- A tree of which everything is kept. -/
theorem spared_all (t : Tree) : Spared (List.range t.size) t t where
  root := by
    obtain ⟨m, hm⟩ : ∃ m, t.size = m + 1 := ⟨_, (Nat.succ_pred_eq_of_pos t.linked.size_pos).symm⟩
    rw [hm, List.range_succ_eq_map]
    rfl
  size := List.length_range.symm
  size_le := Nat.le_refl _
  lt_size _ hp := List.mem_range.mp hp
  node p hp := by rw [idxOf_range (List.mem_range.mp hp)]
  children p hp := by
    rw [idxOf_range (List.mem_range.mp hp)]
    refine (List.map_id _).symm.trans (List.map_congr_left fun c hc => ?_)
    exact (idxOf_range (t.linked.forward hc).2).symm
  closed {p c} hc := by
    simp only [List.mem_range]
    exact iff_of_true (t.linked.forward hc).2 (Entry.lt_size_of_mem hc)

/-- The walk below the root meets no place that is stored without a parent. -/
theorem order_store (t : Tree) (n : Node) : (t.store n).order = t.order := by
  obtain ⟨f, hf⟩ := t.exists_below
  have hkeep : (t.store n).Holds (.cons 0 f .nil) := hf.keep fun i _ hi => by
    rw [size_store, children_store]
    exact ⟨Nat.lt_succ_of_lt hi, rfl⟩
  rw [hf.order_eq, hkeep.order_eq]

/-- An attempt that fails has named no place, or that of a node that can have no children. The entries stay as they
    were, with the orphan behind them, and all that is seen from the root stays as it was. Later attempts never bring
    the orphan to sight, nor what they add below it: the tree looks like the one that they lead to without these. -/
theorem orphan_stays_unseen (attempts : List (Node × Int)) (n : Node) (index : Int) (e : AddError)
    (h : ((start.addAll attempts).add n index).2 = .error e) :
    let t := start.addAll attempts
    let u := (t.add n index).1
    t.Fails n index e ∧ u.entries = t.entries.push { node := n } ∧ u.order = t.order ∧ u.Alike t ∧
      ∀ later : List (Node × Int),
        (∀ c, (u.addAll later).Reaches t.size c → c ≠ 0 ∧ c ∉ (u.addAll later).order) ∧
        (u.addAll later).Alike (t.addAll (sparing (List.range t.size) u later)) := by
  intro t u
  obtain ⟨hstore, hfails⟩ := add_eq_store h
  have hu : u = t.store n := hstore
  have hspared : Spared (List.range t.size) t u := by
    rw [hu]
    exact t.spared_all.store_left
  obtain ⟨f, hf⟩ := u.exists_reads
  refine ⟨hfails, congrArg entries hstore, by rw [hu, order_store], hf.alike (hspared.reads hf), fun later => ?_⟩
  obtain ⟨places, hplaces, hkept⟩ := hspared.addAll later
  obtain ⟨g, hg⟩ := (u.addAll later).exists_reads
  have horphan : t.size ∉ places := fun hmem => by
    have hlt : t.size < u.size := by
      rw [hu, size_store]
      exact Nat.lt_succ_self _
    exact Nat.lt_irrefl _ (List.mem_range.mp (hkept t.size hlt hmem))
  refine ⟨fun c hc => ?_, hg.alike (hplaces.reads hg)⟩
  have hleft : c ∉ places := fun hmem => horphan ((hplaces.mem_of_reaches hc).mp hmem)
  refine ⟨fun heq => hleft (heq ▸ hplaces.zero_mem), fun hmem => hleft ?_⟩
  exact (hplaces.mem_of_reaches (((visited_order _).reached c).mp hmem).2).mpr hplaces.zero_mem

/-- A group is added to a select and a select to that group; the button behind them counts its parent from the end,
    past both. Only the button is seen. -/
theorem group_below_select_unseen :
    let t := start.addAll [({ element := .form "/pay" "post" }, 0),
      ({ element := .select "city" "City" [] (some "/cities") }, 1)]
    let group : Node := { element := .group "Lost" }
    let later : List (Node × Int) := [({ element := .select "town" "Town" [] (some "/towns") }, 3),
      ({ element := .submit "Pay" }, -5)]
    let u := (t.add group 2).1
    (t.add group 2).2 = .error (.leafParent (.select "city" "City" [] (some "/cities"))) ∧
    (u.addAll later).size = 6 ∧ 4 ∉ (u.addAll later).order ∧
      (u.addAll later).Alike (t.addAll [({ element := .submit "Pay" }, 1)]) := by
  intro t group later u
  have h : (t.add group 2).2 = .error (.leafParent (.select "city" "City" [] (some "/cities"))) := by decide
  obtain ⟨-, -, -, -, hlater⟩ := orphan_stays_unseen _ group 2 _ h
  obtain ⟨hunseen, halike⟩ := hlater later
  have hchild : 4 ∈ (u.addAll later).children 3 := by decide
  refine ⟨h, by decide, (hunseen 4 (.single hchild)).2, ?_⟩
  have hsparing : sparing (List.range t.size) u later = [({ element := .submit "Pay" }, 1)] := by decide
  rwa [hsparing] at halike

end FormDirectives.Tree
