import FormDirectives.Proofs.Tree.Order
import Mathlib.Data.List.Induction

/-! Growing a tree. An attempt to add a node stores it behind all others, whether it finds a parent or not, and then
    at most one container takes it as its last child. So the attempts tell whose child each entry is: of the container
    that its own attempt names. Only an attempt that names its own place can make an entry its own child, and such an
    entry is never reached from the root. -/

namespace FormDirectives.Tree
variable {t : Tree} {n : Node} {index : Int} {attempts : List (Node × Int)} {p q c i : Nat}

/-- The index names place `p` when a node is stored at place `c`: it counts from the first entry on, or if it is
    negative, back from behind the stored one. -/
def Names (index : Int) (c p : Nat) : Prop := p ≤ c ∧ (index = p ∨ index + (c + 1) = p)

theorem Names.unique (hp : Names index c p) (hq : Names index c q) : p = q := by
  obtain ⟨hple, hp⟩ := hp
  obtain ⟨hqle, hq⟩ := hq
  omega

theorem place?_store : (t.store n).place? index = some p ↔ Names index t.size p := by
  rw [place?_eq_some_iff, Names, store, size, Array.size_push]
  simp only [size]
  omega

theorem nodeAt_congr {u : Tree} (h : t.nodes = u.nodes) (i : Nat) : t.nodeAt i = u.nodeAt i := by
  simp only [nodeAt, node?_eq, h]

theorem nodeAt_add_of_lt (hi : i < t.size) : (t.add n index).1.nodeAt i = t.nodeAt i := by
  have hlt : i < t.nodes.length := by rwa [length_nodes]
  simp only [nodeAt, node?_eq, nodes_add, List.getElem?_append_left hlt]

/-! ### One attempt -/

/-- What an attempt to add a node does to the children in a tree. -/
inductive Grows (t : Tree) (n : Node) (index : Int) : Prop
  /-- The container that the index names takes the new place as its last child. -/
  | taken (p : Nat) (named : Names index t.size p) (container : ((t.add n index).1.nodeAt p).isContainer = true)
      (answer : (t.add n index).2 = .ok t.size)
      (children : ∀ i, (t.add n index).1.children i = if p = i then t.children i ++ [t.size] else t.children i)
  /-- The index names no container, and the new place is nobody's child. -/
  | left (named : ∀ p, Names index t.size p → ((t.add n index).1.nodeAt p).isContainer = false)
      (answer : ∃ e, (t.add n index).2 = .error e)
      (children : ∀ i, (t.add n index).1.children i = t.children i)

theorem grows (t : Tree) (n : Node) (index : Int) : t.Grows n index := by
  have hnodes (i : Nat) : (t.add n index).1.nodeAt i = (t.store n).nodeAt i :=
    nodeAt_congr ((t.nodes_add n index).trans (t.nodes_store n).symm) i
  rcases t.add_cases n index with ⟨p, h, hp, heq⟩ | ⟨⟨e, heq⟩, hnone⟩
  · refine .taken p (place?_store.mp hp) ?_ (congrArg Prod.snd heq) fun i => ?_
    · obtain ⟨e, he, hc⟩ := h.container
      rw [hnodes, nodeAt_eq he]
      exact hc
    · rw [heq, children_attach, children_store]
  · refine .left (fun p hp => ?_) ⟨e, congrArg Prod.snd heq⟩ fun i => ?_
    · have hplace : (t.store n).place? index = some p := place?_store.mpr hp
      obtain ⟨e, he⟩ : ∃ e, (t.store n).entries[p]? = some e :=
        ⟨_, Array.getElem?_eq_getElem (place?_eq_some_iff.mp hplace).1⟩
      rw [hnodes, nodeAt_eq he]
      exact hnone p e hplace he
    · rw [heq, children_store]

theorem mem_children_add : c ∈ (t.add n index).1.children p ↔
    c ∈ t.children p ∨ c = t.size ∧ Names index t.size p ∧ ((t.add n index).1.nodeAt p).isContainer = true := by
  cases t.grows n index with
  | taken q named container _ children =>
    rw [children]
    split
    · next h =>
      subst h
      simp [named, container]
    · next h =>
      have hother : ¬ Names index t.size p := fun hp => h (named.unique hp)
      simp [hother]
  | left named _ children =>
    rw [children]
    refine ⟨Or.inl, fun h => h.resolve_right fun ⟨_, hp, hc⟩ => ?_⟩
    rw [named p hp] at hc
    cases hc

/-! ### Histories -/

theorem nodes_addAll (t : Tree) (attempts : List (Node × Int)) :
    (t.addAll attempts).nodes = t.nodes ++ attempts.map (·.1) := by
  induction attempts generalizing t with
  | nil => simp [addAll]
  | cons a attempts ih =>
    have hrest := ih (t.add a.1 a.2).1
    rw [nodes_add, List.append_assoc, List.singleton_append] at hrest
    exact hrest

theorem size_addAll (t : Tree) (attempts : List (Node × Int)) :
    (t.addAll attempts).size = t.size + attempts.length := by
  rw [← length_nodes, nodes_addAll, List.length_append, List.length_map, length_nodes]

theorem addAll_concat (t : Tree) (attempts : List (Node × Int)) (a : Node × Int) :
    t.addAll (attempts ++ [a]) = ((t.addAll attempts).add a.1 a.2).1 := by
  rw [addAll, List.foldl_append]
  rfl

/-- Entry `c` was stored by an attempt that names entry `p`, a container. -/
def AddedTo (attempts : List (Node × Int)) (p c : Nat) : Prop :=
  ∃ k n index, c = k + 1 ∧ attempts[k]? = some (n, index) ∧ Names index c p ∧
    ((start.addAll attempts).nodeAt p).isContainer = true

theorem addedTo_concat (attempts : List (Node × Int)) (a : Node × Int) : AddedTo (attempts ++ [a]) p c ↔
    AddedTo attempts p c ∨ c = (start.addAll attempts).size ∧ Names a.2 (start.addAll attempts).size p ∧
      (((start.addAll attempts).add a.1 a.2).1.nodeAt p).isContainer = true := by
  have hsize : (start.addAll attempts).size = attempts.length + 1 := by
    rw [size_addAll, Nat.add_comm]
    rfl
  simp only [AddedTo, addAll_concat]
  constructor
  · rintro ⟨k, n, index, rfl, hk, named, container⟩
    rcases Nat.lt_or_ge k attempts.length with hlt | hge
    · -- An earlier attempt names an earlier entry, whose node is still the same.
      rw [List.getElem?_append_left hlt] at hk
      have hp : p < (start.addAll attempts).size := by have := named.1; omega
      rw [nodeAt_add_of_lt hp] at container
      exact Or.inl ⟨k, n, index, rfl, hk, named, container⟩
    · rw [List.getElem?_append_right hge, List.getElem?_singleton, Option.ite_none_right_eq_some] at hk
      obtain ⟨hlast, rfl⟩ : k - attempts.length = 0 ∧ a = (n, index) := ⟨hk.1, Option.some.inj hk.2⟩
      have hk : k + 1 = (start.addAll attempts).size := by omega
      rw [hk] at named
      exact Or.inr ⟨hk, named, container⟩
  · rintro (⟨k, n, index, rfl, hk, named, container⟩ | ⟨rfl, named, container⟩)
    · have hlt : k < attempts.length := (List.getElem?_eq_some_iff.mp hk).1
      have hp : p < (start.addAll attempts).size := by have := named.1; omega
      have hnode : ((start.addAll attempts).add a.1 a.2).1.nodeAt p = (start.addAll attempts).nodeAt p :=
        nodeAt_add_of_lt hp
      rw [← hnode] at container
      exact ⟨k, n, index, rfl, by rw [List.getElem?_append_left hlt, hk], named, container⟩
    · exact ⟨attempts.length, a.1, a.2, hsize, by simp, named, container⟩

/-- The children of an entry are those that were added to it. -/
theorem mem_children_addAll (attempts : List (Node × Int)) {p c : Nat} :
    c ∈ (start.addAll attempts).children p ↔ AddedTo attempts p c := by
  induction attempts using List.reverseRecOn with
  | nil =>
    have hnone : start.children p = [] := by
      rcases p with _ | p <;> simp [start, children, Entry.childrenAt]
    simp [addAll, hnone, AddedTo]
  | append_singleton attempts a ih => rw [addAll_concat, mem_children_add, ih, addedTo_concat]

theorem AddedTo.self (h : AddedTo attempts c c) :
    ∃ n index, attempts[c - 1]? = some (n, index) ∧ n.isContainer = true ∧ (index = c ∨ index = -1) := by
  obtain ⟨k, n, index, rfl, hk, ⟨-, named⟩, container⟩ := h
  have hnode : (start.addAll attempts).nodeAt (k + 1) = n := by
    rw [nodeAt, node?_eq, nodes_addAll]
    simp [nodes, start, hk]
  rw [hnode] at container
  exact ⟨n, index, hk, container, by omega⟩

/-- How a tree hangs together after a history of attempts to add nodes. -/
structure Grown (attempts : List (Node × Int)) (t : Tree) : Prop where
  nodes : t.nodes = { element := .root } :: attempts.map (·.1)
  /-- Another attempt keeps all nodes, and of the children lists it changes one at most, by the new place at its
      end. -/
  next : ∀ n index, (t.add n index).1.nodes = t.nodes ++ [n] ∧ t.Grows n index
  child : ∀ p c, c ∈ t.children p ↔ AddedTo attempts p c
  single : ∀ p q c, c ∈ t.children p → c ∈ t.children q → p = q
  ascending : ∀ p, (t.children p).Pairwise (· < ·)
  /-- A child stands behind its parent, unless it is a container that was added to itself. -/
  forward : ∀ p c, c ∈ t.children p → p < c ∨
    p = c ∧ ∃ n index, attempts[c - 1]? = some (n, index) ∧ n.isContainer = true ∧ (index = c ∨ index = -1)
  visited : t.Visited t.order
  /-- What is visited has a parent, and not itself. -/
  rooted : ∀ c ∈ t.order, ∃ p, c ∈ t.children p ∧ p ≠ c

/-- Whatever is attempted on a fresh tree, its entries hang together in the way that the attempts tell, and a walk
    below its root ends and visits exactly what the root reaches. -/
theorem grown_addAll (attempts : List (Node × Int)) : Grown attempts (start.addAll attempts) where
  nodes := nodes_addAll start attempts
  next n index := ⟨nodes_add _ n index, grows _ n index⟩
  child _ _ := mem_children_addAll attempts
  single _ _ _ hp hq := (start.addAll attempts).linked.single hp hq
  ascending p := (start.addAll attempts).linked.ascending p
  forward p c hc := by
    rcases Nat.lt_or_eq_of_le ((start.addAll attempts).linked.forward hc).1 with hlt | rfl
    · exact Or.inl hlt
    · exact Or.inr ⟨rfl, ((mem_children_addAll attempts).mp hc).self⟩
  visited := visited_order _
  rooted c hc := by
    obtain ⟨hne, hreached⟩ := ((visited_order _).reached c).mp hc
    cases hreached with
    | refl => exact absurd rfl hne
    | @tail p _ hp hpc =>
      refine ⟨p, hpc, ?_⟩
      rintro rfl
      exact not_mem_children_of_reaches hp hpc

/-- A group that is added to itself and a field that is added to a field are stored, but not visited. -/
example : let t := start.addAll [({ element := .group "billing" }, 0), ({ element := .group "lost" }, -1),
    ({ element := .submit "Pay" }, 1), ({ element := .submit "Late" }, 3)]
    t.size = 5 ∧ t.children 2 = [2] ∧ t.order = [1, 3] := by
  decide

end FormDirectives.Tree
