import FormDirectives.Node

/-! Form trees. The nodes of a tree stand in one array of entries; an entry lists the places of its children,
    and the root is entry zero. A child never stands before its parent and has only one, so a walk from the last
    entry to the first meets every child before the parent that takes it. -/

namespace FormDirectives

structure Entry where
  node : Node
  children : List Nat := []
  deriving DecidableEq, Repr, Inhabited

namespace Entry

/-- The entry with one more child behind the others. -/
def adopt (e : Entry) (child : Nat) : Entry := { e with children := e.children ++ [child] }

/-- The children of the entry at a place; there are none where no entry stands. -/
def childrenAt (entries : Array Entry) (i : Nat) : List Nat := (entries[i]?.map (·.children)).getD []

variable {entries : Array Entry} {i c : Nat} {e : Entry}

theorem childrenAt_eq (h : entries[i]? = some e) : childrenAt entries i = e.children := by
  simp [childrenAt, h]

theorem mem_childrenAt : c ∈ childrenAt entries i ↔ ∃ e, entries[i]? = some e ∧ c ∈ e.children := by
  cases h : entries[i]? <;> simp [childrenAt, h]

theorem lt_size_of_mem (h : c ∈ childrenAt entries i) : i < entries.size := by
  obtain ⟨e, he, -⟩ := mem_childrenAt.mp h
  exact (Array.getElem?_eq_some_iff.mp he).1

/-- A stored entry has no children yet. -/
theorem childrenAt_push (n : Node) (i : Nat) :
    childrenAt (entries.push { node := n }) i = childrenAt entries i := by
  unfold childrenAt
  rw [Array.getElem?_push]
  split
  · next h =>
    have hnone : entries[i]? = none := Array.getElem?_eq_none (by omega)
    simp [hnone]
  · rfl

theorem childrenAt_modify (p child i : Nat) (hp : p < entries.size) :
    childrenAt (entries.modify p (adopt · child)) i =
      if p = i then childrenAt entries i ++ [child] else childrenAt entries i := by
  unfold childrenAt
  rw [Array.getElem?_modify]
  split
  · next h =>
    obtain ⟨e, he⟩ : ∃ e, entries[i]? = some e := ⟨_, Array.getElem?_eq_getElem (h ▸ hp)⟩
    simp [he, adopt]
  · rfl

end Entry

open Entry in
/-- How the entries of a tree hang together. -/
structure Linked (entries : Array Entry) : Prop where
  root : entries[0]?.map (·.node) = some { element := .root }
  /-- A child stands behind its parent; only an entry that was added to itself is its own child. -/
  forward : ∀ {i c}, c ∈ childrenAt entries i → i ≤ c ∧ c < entries.size
  ascending : ∀ i, (childrenAt entries i).Pairwise (· < ·)
  /-- An entry is the child of at most one entry. -/
  single : ∀ {i j c}, c ∈ childrenAt entries i → c ∈ childrenAt entries j → i = j
  /-- The root is nobody's child. -/
  top : ∀ i, 0 ∉ childrenAt entries i
  /-- Only containers have children. -/
  leaf : ∀ {i : Nat} {e : Entry}, entries[i]? = some e → e.node.isContainer = false → e.children = []

namespace Linked
open Entry
variable {entries : Array Entry}

theorem start : Linked #[{ node := { element := .root } }] := by
  have none (i : Nat) : childrenAt #[{ node := { element := .root } }] i = [] := by
    rcases i with _ | i <;> simp [childrenAt]
  refine ⟨rfl, ?_, ?_, ?_, ?_, ?_⟩
  · intro i c h
    simp [none] at h
  · simp [none]
  · intro i j c h
    simp [none] at h
  · simp [none]
  · intro i e h _
    rw [← childrenAt_eq h]
    exact none i

theorem size_pos (l : Linked entries) : 0 < entries.size := by
  obtain ⟨e, he, -⟩ := Option.map_eq_some_iff.mp l.root
  exact (Array.getElem?_eq_some_iff.mp he).1

theorem push (l : Linked entries) (n : Node) : Linked (entries.push { node := n }) where
  root := by
    rw [Array.getElem?_push, if_neg (Nat.ne_of_lt l.size_pos)]
    exact l.root
  forward h := by
    rw [childrenAt_push] at h
    obtain ⟨hle, hlt⟩ := l.forward h
    exact ⟨hle, by rw [Array.size_push]; omega⟩
  ascending i := by
    rw [childrenAt_push]
    exact l.ascending i
  single h h' := by
    rw [childrenAt_push] at h h'
    exact l.single h h'
  top i := by
    rw [childrenAt_push]
    exact l.top i
  leaf h hn := by
    rw [Array.getElem?_push] at h
    split at h
    · obtain rfl := Option.some.inj h
      rfl
    · exact l.leaf h hn

/-- What an entry must be to take `child` as its last child: a container that is not behind it, while all that
    are children so far stand before it. -/
structure Takes (entries : Array Entry) (parent child : Nat) : Prop where
  container : ∃ e, entries[parent]? = some e ∧ e.node.isContainer = true
  le : parent ≤ child
  pos : 0 < child
  lt : child < entries.size
  fresh : ∀ {i c}, c ∈ childrenAt entries i → c < child

theorem Takes.parent_lt {parent child : Nat} (h : Takes entries parent child) : parent < entries.size :=
  Nat.lt_of_le_of_lt h.le h.lt

theorem mem_modify {parent child i c : Nat} (h : Takes entries parent child) :
    c ∈ childrenAt (entries.modify parent (adopt · child)) i ↔
      c ∈ childrenAt entries i ∨ parent = i ∧ c = child := by
  rw [childrenAt_modify _ _ _ h.parent_lt]
  split <;> simp_all

theorem modify (l : Linked entries) {parent child : Nat} (h : Takes entries parent child) :
    Linked (entries.modify parent (adopt · child)) where
  root := by
    rw [Array.getElem?_modify]
    split
    · rw [Option.map_map]
      exact l.root
    · exact l.root
  forward hc := by
    rw [Array.size_modify]
    rcases (mem_modify h).mp hc with hc | ⟨rfl, rfl⟩
    · exact l.forward hc
    · exact ⟨h.le, h.lt⟩
  ascending i := by
    rw [childrenAt_modify _ _ _ h.parent_lt]
    split
    · refine List.pairwise_append.mpr ⟨l.ascending i, by simp, fun a ha b hb => ?_⟩
      rw [List.mem_singleton.mp hb]
      exact h.fresh ha
    · exact l.ascending i
  single hc hc' := by
    rcases (mem_modify h).mp hc with hc | ⟨rfl, rfl⟩ <;> rcases (mem_modify h).mp hc' with hc' | ⟨rfl, hc'⟩
    · exact l.single hc hc'
    · exact absurd (h.fresh hc) (by omega)
    · exact absurd (h.fresh hc') (by omega)
    · rfl
  top i hc := by
    rcases (mem_modify h).mp hc with hc | ⟨-, hc⟩
    · exact l.top i hc
    · exact absurd h.pos (by omega)
  leaf {i e} he hn := by
    rw [Array.getElem?_modify] at he
    split at he
    · next hp =>
      obtain ⟨e', he', rfl⟩ := Option.map_eq_some_iff.mp he
      obtain ⟨e'', he'', hcont⟩ := h.container
      rw [hp, he'] at he''
      obtain rfl := Option.some.inj he''
      exact absurd hcont (by simp [show e'.node.isContainer = false from hn])
    · exact l.leaf he hn

end Linked

structure Tree where
  entries : Array Entry
  linked : Linked entries

namespace Tree

/-- The tree that has only its root. -/
def start : Tree := ⟨#[{ node := { element := .root } }], .start⟩

instance : Inhabited Tree := ⟨start⟩

def size (t : Tree) : Nat := t.entries.size

def children (t : Tree) (i : Nat) : List Nat := Entry.childrenAt t.entries i

def nodes (t : Tree) : List Node := t.entries.toList.map (·.node)

def node? (t : Tree) (i : Nat) : Option Node := t.entries[i]?.map (·.node)

def nodeAt (t : Tree) (i : Nat) : Node := (t.node? i).getD default

theorem length_nodes (t : Tree) : t.nodes.length = t.size := by simp [nodes, size]

theorem node?_eq (t : Tree) (i : Nat) : t.node? i = t.nodes[i]? := by simp [node?, nodes]

theorem nodeAt_eq {t : Tree} {i : Nat} {e : Entry} (h : t.entries[i]? = some e) : t.nodeAt i = e.node := by
  simp [nodeAt, node?, h]

theorem nodeAt_zero (t : Tree) : t.nodeAt 0 = { element := .root } := by
  rw [nodeAt, node?, t.linked.root]
  rfl

theorem isContainer_of_mem {t : Tree} {p c : Nat} (h : c ∈ t.children p) : (t.nodeAt p).isContainer = true := by
  obtain ⟨e, he, hc⟩ := Entry.mem_childrenAt.mp h
  rw [nodeAt_eq he]
  cases hcontainer : e.node.isContainer with
  | true => rfl
  | false =>
    rw [t.linked.leaf he hcontainer] at hc
    cases hc

/-! ### Adding nodes -/

/-- Stores a node that is nobody's child. -/
def store (t : Tree) (n : Node) : Tree := ⟨t.entries.push { node := n }, t.linked.push n⟩

/-- Makes entry `child` the last child of entry `parent`. -/
def attach (t : Tree) (parent child : Nat) (h : Linked.Takes t.entries parent child) : Tree :=
  ⟨t.entries.modify parent (·.adopt child), t.linked.modify h⟩

@[simp] theorem nodes_attach (t : Tree) (parent child : Nat) (h : Linked.Takes t.entries parent child) :
    (t.attach parent child h).nodes = t.nodes := by
  refine List.ext_getElem? fun i => ?_
  simp only [nodes, attach, List.getElem?_map, Array.getElem?_toList, Array.getElem?_modify]
  split <;> simp [Option.map_map, Function.comp_def, Entry.adopt]

/-- The place that an index names; a negative one counts from the end. -/
def place? (t : Tree) (index : Int) : Option Nat :=
  let i := if index < 0 then index + t.size else index
  if 0 ≤ i ∧ i < t.size then some i.toNat else none

theorem place?_eq_some_iff {t : Tree} {index : Int} {i : Nat} :
    t.place? index = some i ↔ i < t.size ∧ (index = i ∨ index + t.size = i) := by
  simp only [place?, Option.ite_none_right_eq_some, Option.some.injEq]
  split <;> omega

inductive AddError
  | noSuchParent
  | leafParent (parent : Element)
  deriving DecidableEq, Repr

/-- A stored node can be taken by any container, itself among them. -/
theorem takes_store (t : Tree) (n : Node) {p : Nat} {e : Entry} (he : (t.store n).entries[p]? = some e)
    (hc : e.node.isContainer = true) : Linked.Takes (t.store n).entries p t.size where
  container := ⟨e, he, hc⟩
  le := by
    have := (Array.getElem?_eq_some_iff.mp he).1
    simp only [store, size, Array.size_push] at this ⊢
    omega
  pos := t.linked.size_pos
  lt := by simp [store, size]
  fresh h := by
    rw [store, Entry.childrenAt_push] at h
    exact (t.linked.forward h).2

/-- Stores a node and makes it the last child of `parent`, an index into the entries with the new one among
    them. The node stays stored when there is no such parent or when it can have no children. -/
def add (t : Tree) (n : Node) (parent : Int) : Tree × Except AddError Nat :=
  let stored := t.store n
  match stored.place? parent with
  | none => (stored, .error .noSuchParent)
  | some p =>
    match h : stored.entries[p]? with
    | none => (stored, .error .noSuchParent)
    | some e =>
      if hc : e.node.isContainer then (stored.attach p t.size (t.takes_store n h hc), .ok t.size)
      else (stored, .error (.leafParent e.node.element))

/-- A stored node is taken by the container that the index names, or the index names none. -/
theorem add_cases (t : Tree) (n : Node) (parent : Int) :
    (∃ p h, (t.store n).place? parent = some p ∧ t.add n parent = ((t.store n).attach p t.size h, .ok t.size)) ∨
    (∃ e, t.add n parent = (t.store n, .error e)) ∧
      ∀ p e, (t.store n).place? parent = some p → (t.store n).entries[p]? = some e → e.node.isContainer = false := by
  unfold add
  simp only
  split
  · next hplace =>
    refine Or.inr ⟨⟨_, rfl⟩, fun p e h => ?_⟩
    rw [hplace] at h
    cases h
  · next p hplace =>
    split
    · next hnone =>
      have := (place?_eq_some_iff.mp hplace).1
      exact absurd (Array.getElem?_eq_none_iff.mp hnone) (Nat.not_le.mpr this)
    · next e he =>
      split
      · next hc => exact Or.inl ⟨p, t.takes_store n he hc, hplace, rfl⟩
      · next hc =>
        refine Or.inr ⟨⟨_, rfl⟩, fun p' e' h h' => ?_⟩
        obtain rfl := Option.some.inj (hplace.symm.trans h)
        obtain rfl := Option.some.inj (he.symm.trans h')
        exact Bool.eq_false_iff.mpr hc

theorem nodes_store (t : Tree) (n : Node) : (t.store n).nodes = t.nodes ++ [n] := by simp [nodes, store]

theorem children_store (t : Tree) (n : Node) (i : Nat) : (t.store n).children i = t.children i :=
  Entry.childrenAt_push n i

theorem children_attach (t : Tree) {parent child : Nat} (h : Linked.Takes t.entries parent child) (i : Nat) :
    (t.attach parent child h).children i = if parent = i then t.children i ++ [child] else t.children i :=
  Entry.childrenAt_modify parent child i h.parent_lt

/-- The new node is stored behind the others, whether it finds a parent or not. -/
theorem nodes_add (t : Tree) (n : Node) (parent : Int) : (t.add n parent).1.nodes = t.nodes ++ [n] := by
  rcases t.add_cases n parent with ⟨p, h, -, heq⟩ | ⟨⟨e, heq⟩, -⟩
  · rw [heq, nodes_attach, nodes_store]
  · rw [heq, nodes_store]

theorem size_add (t : Tree) (n : Node) (parent : Int) : (t.add n parent).1.size = t.size + 1 := by
  rw [← length_nodes, nodes_add, List.length_append, List.length_singleton, length_nodes]

/-- A container among the entries takes the new node. -/
theorem add_eq_attach (t : Tree) (n : Node) {p : Nat} (hp : p < t.size) (hc : (t.nodeAt p).isContainer = true) :
    ∃ h, t.add n p = ((t.store n).attach p t.size h, .ok t.size) := by
  have hplace : (t.store n).place? p = some p := by
    refine place?_eq_some_iff.mpr ⟨?_, Or.inl rfl⟩
    simp only [store, size, Array.size_push] at hp ⊢
    omega
  rcases t.add_cases n p with ⟨q, h, hq, heq⟩ | ⟨-, hnone⟩
  · obtain rfl := Option.some.inj (hplace.symm.trans hq)
    exact ⟨h, heq⟩
  · obtain ⟨e, he⟩ : ∃ e, t.entries[p]? = some e := ⟨_, Array.getElem?_eq_getElem hp⟩
    have hentry : (t.store n).entries[p]? = some e := by
      rw [store, Array.getElem?_push_lt hp, ← he, Array.getElem?_eq_getElem hp]
    rw [nodeAt_eq he, hnone p e hplace hentry] at hc
    cases hc

/-- The new place becomes the last child of its parent, and no other children change. -/
theorem children_add (t : Tree) (n : Node) {p : Nat} (hp : p < t.size) (hc : (t.nodeAt p).isContainer = true)
    (i : Nat) : (t.add n p).1.children i = if p = i then t.children i ++ [t.size] else t.children i := by
  obtain ⟨h, heq⟩ := t.add_eq_attach n hp hc
  rw [heq, children_attach, children_store]

/-- The tree after attempts to add nodes, whether they succeed or not. -/
def addAll (t : Tree) (attempts : List (Node × Int)) : Tree := attempts.foldl (fun t a => (t.add a.1 a.2).1) t

/-! ### Walking -/

/-- The places that a walk visits from the pending ones on: the first of them, then whatever is pending once its
    children have come before the others. A walk that has not ended after `limit` visits is given up. -/
def walk? (t : Tree) : (limit : Nat) → (pending : List Nat) → Option (List Nat)
  | _, [] => some []
  | 0, _ :: _ => none
  | limit + 1, i :: pending => (t.walk? limit (t.children i ++ pending)).map (i :: ·)

/-- The places of the nodes below the root, in the order of a walk. It visits no place twice, so it ends within as
    many visits as there are entries. -/
def order (t : Tree) : List Nat := (t.walk? t.size (t.children 0)).getD []

end Tree
end FormDirectives
