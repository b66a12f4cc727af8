import FormDirectives.Proofs.Tree.Reading
import FormDirectives.Tree.Build
import Mathlib.Data.List.Nodup

/-! A document under construction. Its spine is what is finished in the innermost open container, and the open
    containers, each with what was finished before it. A builder whose root is open carries such a spine: the
    stack names its open containers, the entries are its labels in document order, and an open container has as
    children what is finished in it and then, as the last one, the open container in it. -/

namespace FormDirectives

structure Spine (α : Type) where
  done : Forest α
  /-- The open containers, innermost first, each with what was finished before it. -/
  above : List (α × Forest α)

namespace Spine
variable {α β : Type}

def empty : Spine α := ⟨.nil, []⟩

def append (s : Spine α) (f : Forest α) : Spine α := { s with done := s.done ++ f }

def enter (s : Spine α) (a : α) : Spine α := ⟨.nil, (a, s.done) :: s.above⟩

/-- The spine after the container `a` is closed, before which `before` was finished. -/
def leave (done : Forest α) (a : α) (before : Forest α) (above : List (α × Forest α)) : Spine α :=
  ⟨before ++ .cons a done .nil, above⟩

def map (f : α → β) (s : Spine α) : Spine β := ⟨s.done.map f, s.above.map fun x => (f x.1, x.2.map f)⟩

def labelsAbove : List (α × Forest α) → List α
  | [] => []
  | (a, before) :: above => labelsAbove above ++ before.toList ++ [a]

/-- All labels in document order. -/
def labels (s : Spine α) : List α := labelsAbove s.above ++ s.done.toList

@[simp] theorem labels_append (s : Spine α) (f : Forest α) : (s.append f).labels = s.labels ++ f.toList := by
  simp [labels, append]

@[simp] theorem labels_enter (s : Spine α) (a : α) : (s.enter a).labels = s.labels ++ [a] := by
  simp [labels, enter, labelsAbove]

@[simp] theorem labels_leave (done : Forest α) (a : α) (before : Forest α) (above : List (α × Forest α)) :
    (leave done a before above).labels = labels ⟨done, (a, before) :: above⟩ := by
  simp [labels, leave, labelsAbove]

theorem mem_labels_innermost (done : Forest α) (a : α) (before : Forest α) (above : List (α × Forest α)) :
    a ∈ labels ⟨done, (a, before) :: above⟩ := by
  simp [labels, labelsAbove]

theorem mem_labelsAbove {x : α × Forest α} : ∀ {above : List (α × Forest α)}, x ∈ above → x.1 ∈ labelsAbove above
  | (a, before) :: above, h => by
    rw [labelsAbove, List.mem_append, List.mem_append, List.mem_singleton]
    rcases List.mem_cons.mp h with rfl | h
    · exact Or.inr rfl
    · exact Or.inl (Or.inl (mem_labelsAbove h))

@[simp] theorem map_append (f : α → β) (s : Spine α) (g : Forest α) :
    (s.append g).map f = (s.map f).append (g.map f) := by
  simp [map, append]

@[simp] theorem map_enter (f : α → β) (s : Spine α) (a : α) : (s.enter a).map f = (s.map f).enter (f a) := by
  simp [map, enter]

@[simp] theorem map_leave (f : α → β) (done : Forest α) (a : α) (before : Forest α) (above : List (α × Forest α)) :
    (leave done a before above).map f =
      leave (done.map f) (f a) (before.map f) (above.map fun x => (f x.1, x.2.map f)) := by
  simp [map, leave]

end Spine

/-! ### Places and tokens -/

/-- A token with the place of its node. -/
abbrev Placed := Nat × Token

def Forest.places (f : Forest Placed) : Forest Nat := f.map Prod.fst

namespace Tree
variable {t u : Tree} {above : List (Placed × Forest Placed)} {children : List Nat}

/-- The innermost open container has the given children, and each one further out has the one in it as its last
    child behind what was finished before. -/
def Rises (t : Tree) : List Nat → List (Placed × Forest Placed) → Prop
  | children, [] => t.children 0 = children
  | children, (a, before) :: above =>
    t.children a.1 = children ∧ t.Holds before.places ∧ t.Rises (before.places.roots ++ [a.1]) above

theorem Rises.keep (hsize : t.size ≤ u.size) : ∀ {above : List (Placed × Forest Placed)} {children : List Nat},
    t.Rises children above → (∀ i ∈ 0 :: (Spine.labelsAbove above).map Prod.fst, u.children i = t.children i) →
    u.Rises children above
  | [], _, h, keep => (keep 0 List.mem_cons_self).trans h
  | (a, before) :: above, _, ⟨ha, hb, hr⟩, keep => by
    simp only [Spine.labelsAbove, List.map_append, List.map_singleton, List.mem_cons, List.mem_append,
      List.not_mem_nil, or_false] at keep
    refine ⟨(keep a.1 (by simp)).trans ha, hb.keep fun i hi hlt => ⟨Nat.lt_of_lt_of_le hlt hsize, keep i ?_⟩,
      hr.keep hsize fun i hi => keep i ?_⟩
    · rw [Forest.places, Forest.toList_map] at hi
      exact Or.inr (Or.inl (Or.inr hi))
    · rcases List.mem_cons.mp hi with hi | hi
      · exact Or.inl hi
      · exact Or.inr (Or.inl (Or.inl hi))

end Tree

/-! ### What a builder carries -/

/-- The place of the innermost open container. -/
def Spine.top (s : Spine Placed) : Nat := (s.above.head?.map (·.1.1)).getD 0

namespace Builder

structure Carries (b : Builder) (s : Spine Placed) : Prop where
  stack : b.stack = s.above.map (·.1.1) ++ [0]
  numbered : 0 :: s.labels.map Prod.fst = List.range b.tree.size
  nodes : b.tree.nodes = { element := .root } :: s.labels.map (·.2.node)
  opened : ∀ a ∈ s.above, ∃ c, a.1.2.role = .opener c
  done : b.tree.Holds s.done.places
  rises : b.tree.Rises s.done.places.roots s.above

theorem carries_start : Carries {} .empty where
  stack := rfl
  numbered := rfl
  nodes := rfl
  opened _ ha := by cases ha
  done := trivial
  rises := rfl

theorem step_append {t : Token} (ht : ∀ c, t.role ≠ .closer c) (strict : Bool) (b : Builder) :
    b.step strict t = .ok (b.append t) := by
  unfold step
  split
  · next c hrole => exact absurd hrole (ht c)
  · rfl

theorem step_closer {t : Token} {c : Container} (ht : t.role = .closer c) (strict : Bool) (b : Builder) :
    b.step strict t = b.close strict t c := by
  simp only [step, ht]

/-- A lenient closer pops the stack, and it may be reported. -/
theorem close_false (b : Builder) (t : Token) (c : Container) : b.close false t c = .ok { b with
    stack := b.stack.tail
    diagnostics := b.diagnostics ++ (b.closeIssue? t c).toList } := by
  rw [close]
  cases b.closeIssue? t c with
  | none => simp only [Option.toList_none, List.append_nil]; rfl
  | some d => rfl

namespace Carries
variable {b : Builder} {s : Spine Placed} {t : Token} {c : Container} {x : Placed} {n : Node} {i : Nat}
variable {done before : Forest Placed} {a : Placed} {above : List (Placed × Forest Placed)}

theorem stack_eq (h : b.Carries s) : ∃ below, b.stack = s.top :: below := by
  rw [h.stack]
  obtain ⟨done, _ | ⟨a, above⟩⟩ := s
  · exact ⟨[], rfl⟩
  · exact ⟨above.map (·.1.1) ++ [0], rfl⟩

theorem distinct (h : b.Carries s) : (0 :: s.labels.map Prod.fst).Nodup := by
  rw [h.numbered]
  exact List.nodup_range

theorem lt_size (h : b.Carries s) (hi : i ∈ 0 :: s.labels.map Prod.fst) : i < b.tree.size := by
  rw [h.numbered] at hi
  exact List.mem_range.mp hi

/-- The node at the place of a token is the one that the token stands for. -/
theorem nodeAt_label (h : b.Carries s) (hx : x ∈ s.labels) : b.tree.nodeAt x.1 = x.2.node := by
  obtain ⟨i, hi⟩ := List.mem_iff_getElem?.mp hx
  have hlt : x.1 < b.tree.size := h.lt_size (List.mem_cons_of_mem 0 (List.mem_map_of_mem hx))
  have hnumber : (List.range b.tree.size)[i + 1]? = some x.1 := by simp [← h.numbered, hi]
  have hplace : x.1 = i + 1 := by
    obtain ⟨hi', heq⟩ := List.getElem?_eq_some_iff.mp hnumber
    rw [← heq, List.getElem_range]
  have hnode : b.tree.node? x.1 = some x.2.node := by
    rw [Tree.node?_eq, h.nodes, hplace]
    simp [hi]
  rw [Tree.nodeAt, hnode, Option.getD_some]

/-- Nodes are added to the root or to an open container. -/
theorem top_takes (h : b.Carries s) : s.top < b.tree.size ∧ (b.tree.nodeAt s.top).isContainer = true := by
  obtain ⟨done, _ | ⟨⟨a, before⟩, above⟩⟩ := s
  · refine ⟨h.lt_size List.mem_cons_self, ?_⟩
    rw [Spine.top, Tree.nodeAt, Tree.node?_eq, h.nodes]
    rfl
  · have ha := Spine.mem_labels_innermost done a before above
    refine ⟨h.lt_size (List.mem_cons_of_mem 0 (List.mem_map_of_mem ha)), ?_⟩
    rw [Spine.top, List.head?_cons, Option.map_some, Option.getD_some, h.nodeAt_label ha]
    exact Token.isContainer_node.mpr (h.opened _ List.mem_cons_self)

/-! ### Adding a node -/

theorem children_add (h : b.Carries s) (n : Node) (i : Nat) : (b.tree.add n s.top).1.children i =
    if s.top = i then b.tree.children i ++ [b.tree.size] else b.tree.children i :=
  Tree.children_add _ _ h.top_takes.1 h.top_takes.2 i

/-- A new place has no children. -/
theorem children_add_size (h : b.Carries s) (n : Node) : (b.tree.add n s.top).1.children b.tree.size = [] := by
  rw [h.children_add, if_neg (Nat.ne_of_lt h.top_takes.1)]
  exact List.eq_nil_iff_forall_not_mem.mpr fun c hc => Nat.lt_irrefl _ (Entry.lt_size_of_mem hc)

/-- An open container is neither further out nor in what is finished before it or in it. -/
theorem apart (h : b.Carries ⟨done, (a, before) :: above⟩) :
    a.1 ∉ 0 :: (Spine.labelsAbove above).map Prod.fst ∧ a.1 ∉ before.places.toList ∧ a.1 ∉ done.places.toList := by
  have hmiddle : ((0 :: (Spine.labelsAbove above).map Prod.fst ++ before.places.toList) ++
      a.1 :: done.places.toList).Nodup := by
    simpa [Spine.labels, Spine.labelsAbove, Forest.places] using h.distinct
  have hfresh := (List.nodup_cons.mp (List.nodup_middle.mp hmiddle)).1
  rw [List.mem_append, List.mem_append, not_or, not_or] at hfresh
  exact and_assoc.mp hfresh

theorem top_notMem_done (h : b.Carries s) : s.top ∉ s.done.places.toList := by
  obtain ⟨done, _ | ⟨⟨a, before⟩, above⟩⟩ := s
  · have hdistinct : (0 :: done.places.toList).Nodup := by
      simpa [Spine.labels, Spine.labelsAbove, Forest.places] using h.distinct
    exact (List.nodup_cons.mp hdistinct).1
  · exact h.apart.2.2

theorem holds_add (h : b.Carries s) (n : Node) : (b.tree.add n s.top).1.Holds s.done.places := by
  refine h.done.keep fun i hi hlt => ⟨by rw [Tree.size_add]; omega, ?_⟩
  rw [h.children_add, if_neg]
  rintro rfl
  exact h.top_notMem_done hi

/-- The new place becomes the last child of the innermost open container, and the ones further out stay as they
    are. -/
theorem rises_add (h : b.Carries s) (n : Node) :
    (b.tree.add n s.top).1.Rises (s.done.places.roots ++ [b.tree.size]) s.above := by
  have hsize : b.tree.size ≤ (b.tree.add n s.top).1.size := by rw [Tree.size_add]; omega
  have htop := h.children_add n s.top
  rw [if_pos rfl] at htop
  obtain ⟨done, _ | ⟨⟨a, before⟩, above⟩⟩ := s
  · exact htop.trans (congrArg (· ++ [b.tree.size]) h.rises)
  · obtain ⟨hchildren, hbefore, hrises⟩ := h.rises
    obtain ⟨hout, hsibling, -⟩ := h.apart
    have hother {i : Nat} (hi : a.1 ≠ i) := (h.children_add n i).trans (if_neg hi)
    refine ⟨htop.trans (congrArg (· ++ [b.tree.size]) hchildren), hbefore.keep fun i hi hlt => ⟨?_, hother ?_⟩,
      hrises.keep hsize fun i hi => hother ?_⟩
    · exact Nat.lt_of_lt_of_le hlt hsize
    · rintro rfl
      exact hsibling hi
    · rintro rfl
      exact hout hi

/-! ### Steps -/

/-- Reports are no part of what is carried. -/
theorem report (h : b.Carries s) (d : Diagnostic) : (b.report d).Carries s :=
  ⟨h.stack, h.numbered, h.nodes, h.opened, h.done, h.rises⟩

theorem addNode_leaf (h : b.Carries s) (ht : ∀ c, t.role ≠ .opener c) :
    (b.addNode t.node s.top).Carries (s.append (.leaf (b.tree.size, t))) where
  stack := by
    have hleaf : t.node.isContainer = false :=
      Bool.eq_false_iff.mpr fun hc => (Token.isContainer_node.mp hc).elim ht
    simp only [addNode, hleaf]
    exact h.stack
  numbered := by
    rw [addNode, Tree.size_add, List.range_succ, ← h.numbered]
    simp [Forest.leaf]
  nodes := by
    rw [addNode, Tree.nodes_add, h.nodes]
    simp [Forest.leaf]
  opened := h.opened
  done := by
    have hplace : (b.tree.add t.node s.top).1.Holds (.leaf b.tree.size) :=
      ⟨⟨by rw [Tree.size_add]; omega, h.children_add_size t.node⟩, trivial, trivial⟩
    rw [Spine.append, Forest.places, Forest.map_append]
    exact Tree.holds_append.mpr ⟨h.holds_add t.node, hplace⟩
  rises := by
    rw [Spine.append, Forest.places, Forest.map_append, Forest.roots_append]
    exact h.rises_add t.node

theorem addNode_opener (h : b.Carries s) (ht : t.role = .opener c) :
    (b.addNode t.node s.top).Carries (s.enter (b.tree.size, t)) where
  stack := by
    have hcontainer : t.node.isContainer = true := Token.isContainer_node.mpr ⟨c, ht⟩
    simp only [addNode, hcontainer, ↓reduceIte, h.stack]
    rfl
  numbered := by
    rw [addNode, Tree.size_add, List.range_succ, ← h.numbered]
    simp
  nodes := by
    rw [addNode, Tree.nodes_add, h.nodes]
    simp
  opened a ha := by
    rcases List.mem_cons.mp ha with rfl | ha
    · exact ⟨c, ht⟩
    · exact h.opened a ha
  done := trivial
  rises := ⟨h.children_add_size t.node, h.holds_add t.node, h.rises_add t.node⟩

theorem append_leaf (h : b.Carries s) (ht : ∀ c, t.role ≠ .opener c) :
    (b.append t).Carries (s.append (.leaf (b.tree.size, t))) := by
  obtain ⟨below, hstack⟩ := h.stack_eq
  simp only [append, hstack]
  split
  · exact (h.report _).addNode_leaf ht
  · exact h.addNode_leaf ht

theorem append_opener (h : b.Carries s) (ht : t.role = .opener c) :
    (b.append t).Carries (s.enter (b.tree.size, t)) := by
  obtain ⟨below, hstack⟩ := h.stack_eq
  simp only [append, hstack]
  split
  · exact (h.report _).addNode_opener ht
  · exact h.addNode_opener ht

/-- Closing the innermost container makes it the last of what is finished around it. -/
theorem leave (h : b.Carries ⟨done, (a, before) :: above⟩) :
    { b with stack := b.stack.tail : Builder }.Carries (.leave done a before above) where
  stack := by
    simp only [h.stack]
    rfl
  numbered := by
    rw [Spine.labels_leave]
    exact h.numbered
  nodes := by
    rw [Spine.labels_leave]
    exact h.nodes
  opened x hx := h.opened x (List.mem_cons_of_mem _ hx)
  done := by
    obtain ⟨hchildren, hbefore, -⟩ := h.rises
    have ha := Spine.mem_labels_innermost done a before above
    have hplace : b.tree.Holds (.cons a.1 done.places .nil) :=
      ⟨⟨h.lt_size (List.mem_cons_of_mem 0 (List.mem_map_of_mem ha)), hchildren⟩, h.done, trivial⟩
    simpa [Spine.leave, Forest.places] using Tree.holds_append.mpr ⟨hbefore, hplace⟩
  rises := by
    obtain ⟨-, -, hrises⟩ := h.rises
    simpa [Spine.leave, Forest.places] using hrises

theorem closeIssue?_of_root (h : b.Carries s) (hs : s.above = []) (t : Token) (c : Container) :
    b.closeIssue? t c = some { issue := .closesRoot t.directive, line := t.line } := by
  simp [closeIssue?, h.stack, hs]

/-- A closer goes with the innermost open container if that is one of its kind. -/
theorem closeIssue?_of_open {d : Container} (h : b.Carries ⟨done, (a, before) :: above⟩)
    (ha : a.2.role = .opener d) (t : Token) (c : Container) : b.closeIssue? t c =
      if d = c then none else some { issue := .mismatchedClose t.directive d.kind a.2.line, line := t.line } := by
  have hnode : b.tree.nodeAt a.1 = a.2.node :=
    h.nodeAt_label (Spine.mem_labels_innermost done a before above)
  have hkind : d.kind = c.kind ↔ d = c := by cases d <;> cases c <;> decide
  obtain ⟨p, below, hbelow⟩ : ∃ p below, above.map (·.1.1) ++ [0] = p :: below := by
    cases above <;> exact ⟨_, _, rfl⟩
  simp only [closeIssue?, h.stack, List.map_cons, List.cons_append, hbelow, hnode,
    Token.kind_node_of_opener ha, hkind]
  rfl

theorem closeIssue?_eq_none {d : Container} (h : b.Carries ⟨done, (a, before) :: above⟩)
    (ha : a.2.role = .opener d) : b.closeIssue? t c = none ↔ d = c := by
  rw [h.closeIssue?_of_open ha]
  split <;> simp_all

theorem step_fitting (h : b.Carries ⟨done, (a, before) :: above⟩) (ht : t.role = .closer c)
    (ha : a.2.role = .opener c) (strict : Bool) : b.step strict t = .ok { b with stack := b.stack.tail } := by
  have hnone : b.closeIssue? t c = none := (h.closeIssue?_eq_none ha).mpr rfl
  simp only [step_closer ht, close, hnone]
  rfl

theorem unclosed_eq_nil (h : b.Carries s) : b.unclosed = [] ↔ s.above = [] := by
  rw [unclosed, h.stack]
  simp

end Carries
end Builder
end FormDirectives
