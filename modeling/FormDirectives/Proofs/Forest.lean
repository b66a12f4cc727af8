/-! Ordered forests: what a document is once the places of its nodes are forgotten. A forest is taken apart at
    its first tree, into the label of its root, the forest below the root and the trees after it, so an induction
    over a forest needs no lists of subtrees. -/

namespace FormDirectives

inductive Forest (α : Type)
  | nil
  | cons (label : α) (below rest : Forest α)
  deriving DecidableEq, Repr

namespace Forest
variable {α β γ : Type}

/-- The tree that is one leaf. -/
def leaf (a : α) : Forest α := cons a nil nil

/-- The labels of the trees' roots. -/
def roots : Forest α → List α
  | nil => []
  | cons a _ rest => a :: rest.roots

/-- All labels: that of a root before those below it. -/
def toList : Forest α → List α
  | nil => []
  | cons a below rest => a :: (below.toList ++ rest.toList)

def map (f : α → β) : Forest α → Forest β
  | nil => nil
  | cons a below rest => cons (f a) (below.map f) (rest.map f)

def append : Forest α → Forest α → Forest α
  | nil, g => g
  | cons a below rest, g => cons a below (rest.append g)

instance : Append (Forest α) := ⟨append⟩

@[simp] theorem nil_append (g : Forest α) : nil ++ g = g := rfl

@[simp] theorem cons_append (a : α) (below rest g : Forest α) :
    cons a below rest ++ g = cons a below (rest ++ g) := rfl

@[simp] theorem append_nil (f : Forest α) : f ++ nil = f := by
  induction f with
  | nil => rfl
  | cons a below rest _ ih => rw [cons_append, ih]

theorem append_assoc (f g h : Forest α) : f ++ g ++ h = f ++ (g ++ h) := by
  induction f with
  | nil => rfl
  | cons a below rest _ ih => simp only [cons_append, ih]

@[simp] theorem roots_nil : (nil : Forest α).roots = [] := rfl

@[simp] theorem roots_cons (a : α) (below rest : Forest α) : (cons a below rest).roots = a :: rest.roots := rfl

@[simp] theorem roots_append (f g : Forest α) : (f ++ g).roots = f.roots ++ g.roots := by
  induction f with
  | nil => rfl
  | cons a below rest _ ih => simp only [cons_append, roots_cons, ih, List.cons_append]

@[simp] theorem toList_nil : (nil : Forest α).toList = [] := rfl

@[simp] theorem toList_cons (a : α) (below rest : Forest α) :
    (cons a below rest).toList = a :: (below.toList ++ rest.toList) := rfl

@[simp] theorem toList_append (f g : Forest α) : (f ++ g).toList = f.toList ++ g.toList := by
  induction f with
  | nil => rfl
  | cons a below rest _ ih => simp only [cons_append, toList_cons, ih, List.cons_append, List.append_assoc]

@[simp] theorem map_nil (f : α → β) : (nil : Forest α).map f = nil := rfl

@[simp] theorem map_cons (f : α → β) (a : α) (below rest : Forest α) :
    (cons a below rest).map f = cons (f a) (below.map f) (rest.map f) := rfl

@[simp] theorem map_append (f : α → β) (g h : Forest α) : (g ++ h).map f = g.map f ++ h.map f := by
  induction g with
  | nil => rfl
  | cons a below rest _ ih => simp only [cons_append, map_cons, ih]

@[simp] theorem map_map (f : α → β) (g : β → γ) (h : Forest α) : (h.map f).map g = h.map (g ∘ f) := by
  induction h with
  | nil => rfl
  | cons a below rest ihb ihr => simp only [map_cons, ihb, ihr, Function.comp_apply]

@[simp] theorem roots_map (f : α → β) (g : Forest α) : (g.map f).roots = g.roots.map f := by
  induction g with
  | nil => rfl
  | cons a below rest _ ih => simp only [map_cons, roots_cons, ih, List.map_cons]

@[simp] theorem toList_map (f : α → β) (g : Forest α) : (g.map f).toList = g.toList.map f := by
  induction g with
  | nil => rfl
  | cons a below rest ihb ihr => simp only [map_cons, toList_cons, ihb, ihr, List.map_cons, List.map_append]

/-- Two labellings that agree on the labels of a forest relabel it alike. -/
theorem map_congr {f g : α → β} : ∀ {h : Forest α}, (∀ a ∈ h.toList, f a = g a) → h.map f = h.map g
  | nil, _ => rfl
  | cons a below rest, hfg => by
    simp only [toList_cons, List.mem_cons, List.mem_append] at hfg
    rw [map_cons, map_cons, hfg a (Or.inl rfl), map_congr fun b hb => hfg b (Or.inr (Or.inl hb)),
      map_congr fun b hb => hfg b (Or.inr (Or.inr hb))]

theorem mem_toList_of_mem_roots {a : α} : ∀ {f : Forest α}, a ∈ f.roots → a ∈ f.toList
  | cons b below rest, h => by
    rcases List.mem_cons.mp h with rfl | h
    · exact List.mem_cons_self
    · exact List.mem_cons_of_mem b (List.mem_append_right _ (mem_toList_of_mem_roots h))

theorem roots_sublist : ∀ f : Forest α, f.roots.Sublist f.toList
  | nil => .slnil
  | cons a _ rest => .cons_cons a (rest.roots_sublist.trans (List.sublist_append_right _ _))

/-- The number of labels on a longest path. -/
def height : Forest α → Nat
  | nil => 0
  | cons _ below rest => max (below.height + 1) rest.height

@[simp] theorem height_map (f : α → β) (g : Forest α) : (g.map f).height = g.height := by
  induction g with
  | nil => rfl
  | cons a below rest ihb ihr => simp only [map_cons, height, ihb, ihr]

/-- Forests of one shape whose labels come in one order are the same. -/
theorem eq_of_map_eq_map {f : α → γ} {g : α → γ} : ∀ {h k : Forest α}, h.map f = k.map g → h.toList = k.toList → h = k
  | nil, nil, _, _ => rfl
  | cons a below rest, cons b below' rest', hmap, hlist => by
    rw [map_cons, map_cons, cons.injEq] at hmap
    obtain ⟨-, hbelow, hrest⟩ := hmap
    have hlength : below.toList.length = below'.toList.length := by
      simpa using congrArg (fun h => h.toList.length) hbelow
    obtain ⟨rfl, htail⟩ := List.cons.inj hlist
    obtain ⟨hfirst, hlast⟩ := List.append_inj htail hlength
    rw [eq_of_map_eq_map hbelow hfirst, eq_of_map_eq_map hrest hlast]

end Forest
end FormDirectives
