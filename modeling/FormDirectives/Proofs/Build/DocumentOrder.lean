import FormDirectives.Proofs.Build.Draft
import FormDirectives.Proofs.Build.Strictness
import FormDirectives.Proofs.Tree.Order

/-! Document order. As long as the root is open, the open containers are the rightmost path of the tree: each is the
    last child of the one around it. So every node finds a container that takes it, and the places of a parsed tree
    are numbered in the order in which a walk visits them. The nodes are those of the directives that stand before the
    closer of the root, closers apart. Strict or lenient makes no difference to any of this, but for stopping. -/

namespace FormDirectives

/-! ### Directives before the end -/

def Token.isCloser (t : Token) : Bool :=
  match t.role with
  | .closer _ => true
  | _ => false

/-- The directives before the closer that closes the root, where `opened` containers are open. -/
def rooted : (opened : Nat) → List Token → List Token
  | _, [] => []
  | opened, t :: ts =>
    match t.role, opened with
    | .opener _, _ => t :: rooted (opened + 1) ts
    | .closer _, 0 => []
    | .closer _, opened + 1 => t :: rooted opened ts
    | _, _ => t :: rooted opened ts

theorem rooted_sublist (opened : Nat) (ts : List Token) : (rooted opened ts).Sublist ts := by
  fun_induction rooted opened ts with
  | case1 => exact List.Sublist.slnil
  | case3 => exact List.nil_sublist _
  | case2 _ t _ _ _ ih | case4 t _ _ _ _ ih | case5 _ t _ _ _ _ ih => exact ih.cons_cons t

theorem Scope.flatMap_nodes_none : ∀ ts : List Token, (Scope.fates none ts).flatMap Fate.nodes = []
  | [] => rfl
  | t :: ts => by
    have hafter : Scope.after none t = none := by unfold Scope.after; split <;> rfl
    have hnodes : (Scope.fate none t).nodes = [] := by unfold Scope.fate; split <;> rfl
    rw [fates, List.flatMap_cons, hafter, hnodes, flatMap_nodes_none ts]
    rfl

theorem Scope.flatMap_nodes : ∀ (ts openers : List Token), (Scope.fates (some openers) ts).flatMap Fate.nodes =
    ((rooted openers.length ts).filter fun t => !t.isCloser).map Token.node
  | [], _ => rfl
  | t :: ts, openers => by
    rw [fates, List.flatMap_cons]
    cases hrole : t.role with
    | opener c =>
      have hrest := flatMap_nodes ts (t :: openers)
      simp [rooted, hrole, after, fate, Fate.nodes, Token.isCloser, hrest]
    | closer c =>
      rcases openers with _ | ⟨opener, outer⟩
      · simp [rooted, hrole, after, fate, Fate.nodes, flatMap_nodes_none]
      · have hrest := flatMap_nodes ts outer
        simp [rooted, hrole, after, fate, Fate.nodes, Token.isCloser, hrest]
    | field _ | unknown =>
      have hrest := flatMap_nodes ts openers
      simp [rooted, hrole, after, fate, Fate.nodes, Token.isCloser, hrest]

/-! ### The path of open containers -/

theorem Spine.toList_closed {α : Type} : ∀ (above : List (α × Forest α)) (done : Forest α),
    (closed done above).toList = labels ⟨done, above⟩
  | [], done => rfl
  | (a, before) :: above, done => by
    rw [closed, toList_closed above]
    simp [labels, labelsAbove]

/-- From a place that is a last child on, each open container is the last child of the one around it. -/
theorem Tree.Rises.isChain {t : Tree} : ∀ {above : List (Placed × Forest Placed)} {before : List Nat} {i : Nat},
    t.Rises (before ++ [i]) above →
    (i :: (above.map (·.1.1) ++ [0])).IsChain fun inner outer => (t.children outer).getLast? = some inner
  | [], before, i, h => by
    have hchildren : t.children 0 = before ++ [i] := h
    simp [hchildren]
  | (a, before') :: above, before, i, ⟨hchildren, _, hrises⟩ => by
    exact List.isChain_cons_cons.mpr ⟨by rw [hchildren, List.getLast?_concat], hrises.isChain⟩

namespace Builder
variable {b b' : Builder} {s : Spine Placed} {t : Token} {ts : List Token} {c : Container} {strict : Bool}

/-- The open containers of a builder are the rightmost path of its tree, up to the root. -/
structure Upright (b : Builder) : Prop where
  containers : ∀ i ∈ b.stack, i < b.tree.size ∧ (b.tree.nodeAt i).isContainer = true
  /-- Each is the last child of the one around it. -/
  nested : b.stack.IsChain fun inner outer => (b.tree.children outer).getLast? = some inner
  outermost : ∀ i, b.stack.getLast? = some i → i = 0
  /-- What is added to one of them finds it. -/
  takes : ∀ i ∈ b.stack, ∀ n, (b.tree.add n i).2 = .ok b.tree.size

theorem Carries.container_of_mem (h : b.Carries s) {i : Nat} (hi : i ∈ b.stack) :
    i < b.tree.size ∧ (b.tree.nodeAt i).isContainer = true := by
  rw [h.stack, List.mem_append, List.mem_map, List.mem_singleton] at hi
  rcases hi with ⟨a, ha, rfl⟩ | rfl
  · have hlabel : a.1 ∈ s.labels := List.mem_append_left _ (Spine.mem_labelsAbove ha)
    rw [h.nodeAt_above ha]
    exact ⟨h.lt_size (List.mem_cons_of_mem 0 (List.mem_map_of_mem hlabel)), Token.isContainer_node.mpr (h.opened a ha)⟩
  · rw [Tree.nodeAt_zero]
    exact ⟨b.tree.linked.size_pos, rfl⟩

theorem Carries.upright (h : b.Carries s) : b.Upright where
  containers _ hi := h.container_of_mem hi
  nested := by
    rw [h.stack]
    obtain ⟨done, _ | ⟨⟨a, before⟩, above⟩⟩ := s
    · exact .singleton 0
    · exact h.rises.2.2.isChain
  outermost i hi := by
    rw [h.stack, List.getLast?_concat] at hi
    exact (Option.some.inj hi).symm
  takes i hi n := by
    obtain ⟨hlt, hcontainer⟩ := h.container_of_mem hi
    obtain ⟨_, heq⟩ := b.tree.add_eq_attach n hlt hcontainer
    rw [heq]

/-! ### Steps and runs -/

/-- The builder carries the spine, or it did until its root was closed. -/
inductive Recalls (b : Builder) (s : Spine Placed) : Prop
  | ongoing (h : b.Carries s)
  | ended (closed : b.stack = []) (h : Carries { b with stack := [0] } s)

theorem Recalls.upright (h : b.Recalls s) : b.Upright := by
  cases h with
  | ongoing h => exact h.upright
  | ended closed _ => constructor <;> simp [closed]

theorem close_ok (h : b.close strict t c = .ok b') : b'.tree = b.tree ∧ b'.stack = b.stack.tail := by
  unfold close at h
  split at h
  · cases h
    exact ⟨rfl, rfl⟩
  · cases strict <;> cases h
    exact ⟨rfl, rfl⟩

theorem Recalls.close (h : b.Recalls s) (htree : b'.tree = b.tree) (hstack : b'.stack = b.stack.tail) :
    ∃ s', b'.Recalls s' := by
  cases h with
  | ended closed h =>
    refine ⟨s, .ended ?_ (h.congr htree rfl)⟩
    rw [hstack, closed, List.tail_nil]
  | ongoing h =>
    obtain ⟨done, _ | ⟨⟨a, before⟩, above⟩⟩ := s
    · -- The closer finds only the root open.
      refine ⟨_, .ended ?_ (h.congr htree h.stack.symm)⟩
      rw [hstack, h.stack]
      rfl
    · exact ⟨_, .ongoing (h.leave.congr htree hstack)⟩

theorem Recalls.append (h : b.Recalls s) (t : Token) : ∃ s', (b.append t).Recalls s' := by
  cases h with
  | ended closed h =>
    have hreport : b.append t = b.report { issue := .detachedDirective t.directive, line := t.line } := by
      simp only [Builder.append, closed]
    rw [hreport]
    exact ⟨s, .ended closed (h.report _)⟩
  | ongoing h =>
    by_cases ho : ∃ c, t.role = .opener c
    · obtain ⟨c, ho⟩ := ho
      exact ⟨_, .ongoing (h.append_opener ho)⟩
    · exact ⟨_, .ongoing (h.append_leaf fun c hc => ho ⟨c, hc⟩)⟩

theorem Recalls.step (h : b.Recalls s) (hstep : b.step strict t = .ok b') : ∃ s', b'.Recalls s' := by
  by_cases hc : ∃ c, t.role = .closer c
  · obtain ⟨c, hc⟩ := hc
    rw [step_closer hc] at hstep
    obtain ⟨htree, hstack⟩ := close_ok hstep
    exact h.close htree hstack
  · rw [step_append fun c ht => hc ⟨c, ht⟩] at hstep
    cases hstep
    exact h.append t

theorem Recalls.foldlM : ∀ {ts : List Token} {b : Builder} {s : Spine Placed}, b.Recalls s →
    ts.foldlM (Builder.step strict) b = .ok b' → ∃ s', b'.Recalls s'
  | [], b, s, h, hrun => by
    cases hrun
    exact ⟨s, h⟩
  | t :: ts, b, s, h, hrun => by
    rw [List.foldlM_cons] at hrun
    cases hstep : b.step strict t with
    | error e =>
      rw [hstep] at hrun
      cases hrun
    | ok m =>
      rw [hstep] at hrun
      obtain ⟨s', hs'⟩ := h.step hstep
      exact hs'.foldlM hrun

theorem recalls_foldlM (h : ts.foldlM (Builder.step strict) {} = .ok b) : ∃ s, b.Recalls s :=
  (Recalls.ongoing carries_start).foldlM h

theorem tree_finish (h : b.finish strict = .ok b') : b'.tree = b.tree := by
  unfold finish at h
  cases strict with
  | false =>
    rw [foldlM_refuse_false] at h
    cases h
    rfl
  | true =>
    cases hopen : b.unclosed with
    | nil =>
      rw [hopen] at h
      cases h
      rfl
    | cons d rest =>
      rw [hopen] at h
      cases h

end Builder

theorem exists_foldlM_of_parse {strict : Bool} {tokens : List Token} {p : Parsed} (h : parse strict tokens = .ok p) :
    ∃ b, tokens.foldlM (Builder.step strict) {} = .ok b ∧ p.tree = b.tree := by
  cases hrun : tokens.foldlM (Builder.step strict) {} with
  | error e =>
    rw [parse, hrun] at h
    cases h
  | ok b =>
    rw [parse_of_foldlM hrun] at h
    cases hfinish : b.finish strict with
    | error e =>
      rw [hfinish] at h
      cases h
    | ok b' =>
      rw [hfinish] at h
      cases h
      exact ⟨b, rfl, Builder.tree_finish hfinish⟩

/-! ### Parsed trees -/

/-- The entries of a tree stand in document order. -/
structure Tree.InOrder (t : Tree) : Prop where
  root : ∀ i < t.size, (t.nodeAt i).element = .root ↔ i = 0
  children : ∀ i c, c ∈ t.children i → i < c ∧ c < t.size
  ascending : ∀ i, (t.children i).Pairwise (· < ·)
  /-- Each entry but the root is once the child of one container, which stands before it. -/
  parent : ∀ k, 0 < k → k < t.size → ∃ i, i < k ∧ (t.nodeAt i).isContainer = true ∧ (t.children i).count k = 1 ∧
    ∀ j, k ∈ t.children j → j = i
  order : t.order = List.range' 1 (t.size - 1)

namespace Builder
variable {b : Builder} {s : Spine Placed}

theorem Carries.holds_closed : ∀ {above : List (Placed × Forest Placed)} {done : Forest Placed} {b : Builder},
    b.Carries ⟨done, above⟩ → b.tree.Holds (.cons 0 (Spine.closed done above).places .nil)
  | [], _, b, h => ⟨⟨b.tree.linked.size_pos, h.rises⟩, h.done, trivial⟩
  | (_, _) :: _, _, _, h => h.leave.holds_closed

theorem Carries.order_eq (h : b.Carries s) : 0 :: b.tree.order = List.range b.tree.size := by
  rw [h.holds_closed.order_eq, Forest.places, Forest.toList_map, Spine.toList_closed, ← h.numbered]

theorem Carries.inOrder (h : b.Carries s) : b.tree.InOrder := by
  have hreached {k : Nat} (hk : k < b.tree.size) : b.tree.Reaches 0 k := by
    have hmem : k ∈ 0 :: b.tree.order := h.order_eq ▸ List.mem_range.mpr hk
    rcases List.mem_cons.mp hmem with rfl | hmem
    · exact .refl
    · exact ((b.tree.visited_order.reached k).mp hmem).2
  refine ⟨fun i hi => ?_, fun i c hc => ?_, b.tree.linked.ascending, fun k hpos hk => ?_, ?_⟩
  · have hmem : i ∈ 0 :: s.labels.map Prod.fst := h.numbered ▸ List.mem_range.mpr hi
    rcases List.mem_cons.mp hmem with rfl | hmem
    · simp [Tree.nodeAt_zero]
    · obtain ⟨x, hx, rfl⟩ := List.mem_map.mp hmem
      have hne : x.1 ≠ 0 := by
        rintro hzero
        exact (List.nodup_cons.mp h.distinct).1 (hzero ▸ List.mem_map_of_mem hx)
      rw [h.nodeAt_label hx]
      exact iff_of_false x.2.element_ne_root hne
  · have hi : i < b.tree.size := Entry.lt_size_of_mem hc
    exact ⟨Tree.lt_of_reaches (hreached hi) hc, (b.tree.linked.forward hc).2⟩
  · cases hreached hk with
    | refl => exact absurd hpos (Nat.lt_irrefl 0)
    | @tail p _ hp hpk =>
      have hcount : (b.tree.children p).count k = 1 :=
        List.count_eq_one_of_mem ((b.tree.linked.ascending p).imp Nat.ne_of_lt) hpk
      exact ⟨p, Tree.lt_of_reaches hp hpk, Tree.isContainer_of_mem hpk, hcount, fun j hj => b.tree.linked.single hj hpk⟩
  · obtain ⟨n, hn⟩ : ∃ n, b.tree.size = n + 1 := Nat.exists_eq_succ_of_ne_zero (Nat.ne_of_gt b.tree.linked.size_pos)
    have horder := h.order_eq
    rw [hn, List.range_eq_range', List.range'_succ] at horder
    rw [hn, Nat.add_sub_cancel]
    exact (List.cons.inj horder).2

theorem Recalls.inOrder (h : b.Recalls s) : b.tree.InOrder := by
  cases h with
  | ongoing h => exact h.inOrder
  | ended _ h => exact h.inOrder

end Builder

theorem inOrder_of_parse {strict : Bool} {tokens : List Token} {p : Parsed} (h : parse strict tokens = .ok p) :
    p.tree.InOrder := by
  obtain ⟨b, hrun, htree⟩ := exists_foldlM_of_parse h
  obtain ⟨s, hs⟩ := Builder.recalls_foldlM hrun
  exact htree ▸ hs.inOrder

/-- Entries in document order have the nodes that are read, one after the other. -/
theorem Tree.InOrder.nodes_eq {t : Tree} (h : t.InOrder) {f : Forest Node} (hf : t.Reads f) :
    t.nodes = { element := .root } :: f.toList := by
  obtain ⟨places, hplaces, rfl⟩ := hf
  have hnodes : t.nodes = (List.range t.size).map t.nodeAt := by
    refine List.ext_getElem (by simp [Tree.length_nodes]) fun i hi _ => ?_
    rw [List.getElem_map, List.getElem_range, Tree.nodeAt, Tree.node?_eq, List.getElem?_eq_getElem hi,
      Option.getD_some]
  obtain ⟨n, hn⟩ : ∃ n, t.size = n + 1 := Nat.exists_eq_succ_of_ne_zero (Nat.ne_of_gt t.linked.size_pos)
  have horder := h.order
  rw [hn, Nat.add_sub_cancel] at horder
  rw [hnodes, hn, List.range_eq_range', List.range'_succ, List.map_cons, t.nodeAt_zero, Forest.toList_map,
    ← hplaces.order_eq, horder]

/-- A parsed tree has the nodes of the directives before the closer of the root. -/
theorem nodes_of_parse {strict : Bool} {tokens : List Token} {p : Parsed} (h : parse strict tokens = .ok p) :
    p.tree.nodes = { element := .root } :: ((rooted 0 tokens).filter fun t => !t.isCloser).map Token.node := by
  obtain ⟨l, hl, -, hnodes, -⟩ := parse_false tokens
  cases (parse_false_of_parse h).symm.trans hl
  rw [hnodes]
  exact congrArg _ (Scope.flatMap_nodes tokens [])

/-- What is read from a parsed tree are the nodes of directives that are no closers. -/
theorem toList_of_reads {strict : Bool} {tokens : List Token} {p : Parsed} {f : Forest Node}
    (h : parse strict tokens = .ok p) (hf : p.tree.Reads f) :
    f.toList = ((rooted 0 tokens).filter fun t => !t.isCloser).map Token.node := by
  have hnodes := (inOrder_of_parse h).nodes_eq hf
  rw [nodes_of_parse h] at hnodes
  exact (List.cons.inj hnodes).2.symm

/-- What parsing gives, strict or lenient, is a tree whose entries stand in document order: its root, and then a node
    for each directive before the closer of the root, with the directive's kind, properties and line. At every moment of
    the parsing, whatever is open takes what is added to it. -/
theorem parsed_in_document_order (strict : Bool) (tokens : List Token) :
    (∀ p, parse strict tokens = .ok p → p.tree.InOrder ∧
      p.tree.nodes = { element := .root } :: ((rooted 0 tokens).filter fun t => !t.isCloser).map Token.node) ∧
    (∀ t ∈ (rooted 0 tokens).filter fun t => !t.isCloser,
      t.node.kind = t.directive ∧ t.node.props = t.props ∧ t.node.line = t.line) ∧
    ∀ read rest b, tokens = read ++ rest → read.foldlM (Builder.step strict) {} = .ok b → b.Upright := by
  refine ⟨fun p hp => ⟨inOrder_of_parse hp, nodes_of_parse hp⟩, fun t ht => ?_, fun read rest b _ hrun => ?_⟩
  · refine t.node_fields fun c hc => ?_
    simp [Token.isCloser, hc] at ht
  · obtain ⟨s, hs⟩ := Builder.recalls_foldlM hrun
    exact hs.upright

/-- A form is closed as a group, a closer too many closes the root, and what follows it is dropped. -/
theorem damaged_document_in_order :
    let start : List Token := [⟨"form", ∅, 1⟩, ⟨"input", ∅, 2⟩]
    let tokens : List Token := start ++ [⟨"endgroup", ∅, 3⟩, ⟨"chart", ∅, 4⟩, ⟨"endform", ∅, 5⟩, ⟨"submit", ∅, 6⟩]
    ∃ p b, parse false tokens = .ok p ∧ start.foldlM (Builder.step false) {} = .ok b ∧ p.tree.InOrder ∧
      p.tree.nodes = [{ element := .root }, Token.node ⟨"form", ∅, 1⟩, Token.node ⟨"input", ∅, 2⟩,
        Token.node ⟨"chart", ∅, 4⟩] ∧ b.Upright := by
  intro start tokens
  obtain ⟨p, hp, -⟩ := parse_false tokens
  obtain ⟨b, hb, -⟩ := Builder.drafts_start.foldlM start
  obtain ⟨hparsed, -, hrun⟩ := parsed_in_document_order false tokens
  obtain ⟨horder, hnodes⟩ := hparsed p hp
  exact ⟨p, b, hp, hb, horder, hnodes, hrun start _ b rfl hb⟩

end FormDirectives
