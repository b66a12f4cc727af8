import FormDirectives.Proofs.Build.Composition
import FormDirectives.Proofs.Build.DocumentOrder
import FormDirectives.Proofs.Html.Decoding
import FormDirectives.Proofs.Json.RoundTrip
import FormDirectives.Tree.Outline

/-! Outlines determine trees. An outline leaves out the places of the nodes, their elements and line zero. An element
    follows from its directive, which is the kind of the node, and from the properties; and the places follow from the
    nesting, because the entries of a parsed tree stand in document order. -/

namespace FormDirectives

/-- The outline of a node around those of what stands below it. -/
def Node.outline (n : Node) (below : List Json) : Json :=
  .object ([("kind", .string n.kind), ("props", n.props.toJson)] ++
    (if n.line = 0 then [] else [("line", Json.int n.line)]) ++
      if n.isContainer then [("children", Json.array below)] else [])

def Forest.outlines : Forest Node → List Json
  | .nil => []
  | .cons n below rest => n.outline below.outlines :: rest.outlines

/-! ### Outlines of trees -/

namespace Tree
variable {t u : Tree} {f : Forest Node} {i : Nat}

theorem outlineWithin?_eq {below : Forest Nat} (hi : i < t.size) (hroots : t.children i = below.roots)
    (hbelow : ∀ depth, below.roots.mapM (outlineWithin? depth t) =
      if below.height ≤ depth then some (below.map t.nodeAt).outlines else none) (depth : Nat) :
    t.outlineWithin? depth i =
      if below.height < depth then some ((t.nodeAt i).outline (below.map t.nodeAt).outlines) else none := by
  cases depth with
  | zero => rfl
  | succ depth =>
    obtain ⟨e, he⟩ : ∃ e, t.entries[i]? = some e := ⟨_, Array.getElem?_eq_getElem hi⟩
    rw [children, Entry.childrenAt_eq he] at hroots
    simp only [outlineWithin?, he, hroots, hbelow, nodeAt_eq he, Nat.lt_succ_iff, Option.bind_eq_bind,
      Option.bind_some]
    split <;> rfl

/-- The outlines from the roots of what a tree holds, unless it is too high. -/
theorem Holds.mapM_outlineWithin? : ∀ {f : Forest Nat}, t.Holds f → ∀ depth, f.roots.mapM (outlineWithin? depth t) =
    if f.height ≤ depth then some (f.map t.nodeAt).outlines else none
  | .nil, _, _ => by simp [Forest.height, Forest.outlines]
  | .cons i below rest, ⟨⟨hi, hroots⟩, hb, hr⟩, depth => by
    have hentry := outlineWithin?_eq hi hroots hb.mapM_outlineWithin? depth
    have hrest := hr.mapM_outlineWithin? depth
    have hheight : max (below.height + 1) rest.height ≤ depth ↔ below.height < depth ∧ rest.height ≤ depth :=
      Nat.max_le
    simp only [Forest.roots_cons, List.mapM_cons, hentry, hrest, Forest.height, Forest.map_cons, Forest.outlines,
      hheight]
    by_cases hbelow : below.height < depth <;> by_cases hlater : rest.height ≤ depth <;> simp [hbelow, hlater]

/-- The outline of a tree is that of its root around those of what is read from it, unless that is too high. -/
theorem Reads.outlineWithin?_eq (h : t.Reads f) (depth : Nat) : t.outlineWithin? depth 0 =
    if f.height < depth then some (Node.outline { element := .root } f.outlines) else none := by
  obtain ⟨places, ⟨⟨hsize, hroots⟩, hplaces, -⟩, rfl⟩ := h
  rw [Tree.outlineWithin?_eq hsize hroots hplaces.mapM_outlineWithin? depth, t.nodeAt_zero, Forest.height_map]

end Tree

/-! ### What an outline leaves out -/

theorem Props.toJson_injective {p q : Props} (h : p.toJson = q.toJson) : p = q := by
  have hentries : p.entries = q.entries := by
    refine List.map_injective_iff.mpr (fun d e hde => ?_) (Json.object.inj h)
    obtain ⟨hkey, hvalue⟩ := Prod.mk.inj hde
    exact Prod.ext hkey (Json.string.inj hvalue)
  obtain ⟨entries, nodup⟩ := p
  obtain rfl := hentries
  rfl

/-- A line that is left out is line zero. -/
theorem line_children_injective {m n : Int} {container : Bool} {bs cs : List Json}
    (h : ((if m = 0 then [] else [("line", Json.int m)]) ++ if container then [("children", Json.array bs)] else []) =
      (if n = 0 then [] else [("line", Json.int n)]) ++ if container then [("children", Json.array cs)] else []) :
    m = n ∧ (container = true → bs = cs) := by
  by_cases hm : m = 0 <;> by_cases hn : n = 0 <;> cases container <;> simp_all

/-- The outline of a directive's node tells the node, and what stands below it if it can have children. -/
theorem Token.outline_injective {t u : Token} {bs cs : List Json} (ht : ∀ c, t.role ≠ .closer c)
    (hu : ∀ c, u.role ≠ .closer c) (h : t.node.outline bs = u.node.outline cs) :
    t.node = u.node ∧ (t.node.isContainer = true → bs = cs) := by
  simp only [Node.outline, List.cons_append, List.nil_append, Json.object.injEq, List.cons.injEq, Prod.mk.injEq,
    true_and, Json.string.injEq] at h
  obtain ⟨hkind, hprops, hrest⟩ := h
  have hdirective : t.directive = u.directive := by rw [← Token.kind_node ht, hkind, Token.kind_node hu]
  have hprops : t.props = u.props := Props.toJson_injective hprops
  have helement : t.node.element = u.node.element := by
    show t.element = u.element
    simp only [Token.element, Token.role, hdirective, hprops]
  have hcontainer : t.node.isContainer = u.node.isContainer := congrArg Element.isContainer helement
  rw [← hcontainer] at hrest
  obtain ⟨hline, hbelow⟩ := line_children_injective hrest
  refine ⟨?_, hbelow⟩
  rw [Token.node, Token.node, Node.mk.injEq]
  exact ⟨helement, hprops, hline⟩

theorem root_outline_injective {bs cs : List Json}
    (h : Node.outline { element := .root } bs = Node.outline { element := .root } cs) : bs = cs := by
  simpa [Node.outline, Node.isContainer, Element.isContainer] using h

theorem Forest.outlines_injective : ∀ {f g : Forest Node}, f.Proper → g.Proper →
    (∀ n ∈ f.toList, ∃ t : Token, (∀ c, t.role ≠ .closer c) ∧ n = t.node) →
    (∀ n ∈ g.toList, ∃ t : Token, (∀ c, t.role ≠ .closer c) ∧ n = t.node) → f.outlines = g.outlines → f = g
  | .nil, .nil, _, _, _, _, _ => rfl
  | .cons n below rest, .cons m below' rest', ⟨_, hleaf, hb, hr⟩, ⟨_, hleaf', hb', hr'⟩, hf, hg, h => by
    simp only [toList_cons, List.mem_cons, List.mem_append] at hf hg
    obtain ⟨hfirst, hlater⟩ := List.cons.inj h
    obtain ⟨t, ht, rfl⟩ := hf n (Or.inl rfl)
    obtain ⟨u, hu, rfl⟩ := hg m (Or.inl rfl)
    obtain ⟨hnode, hbelow⟩ := Token.outline_injective ht hu hfirst
    have hrest := outlines_injective hr hr' (fun n hn => hf n (Or.inr (Or.inr hn)))
      (fun n hn => hg n (Or.inr (Or.inr hn))) hlater
    rw [← hnode] at hleaf' ⊢
    cases hcontainer : t.node.isContainer with
    | false => rw [hleaf hcontainer, hleaf' hcontainer, hrest]
    | true =>
      rw [outlines_injective hb hb' (fun n hn => hf n (Or.inr (Or.inl hn))) (fun n hn => hg n (Or.inr (Or.inl hn)))
        (hbelow hcontainer), hrest]

/-! ### Parsed trees -/

namespace Tree
variable {t u : Tree} {f : Forest Node} {i : Nat}

theorem Holds.children_eq : ∀ {f : Forest Nat}, t.Holds f → u.Holds f → i ∈ f.toList → t.children i = u.children i
  | .cons j below rest, ⟨⟨_, hj⟩, hb, hr⟩, ⟨⟨_, hj'⟩, hb', hr'⟩, hi => by
    simp only [Forest.toList_cons, List.mem_cons, List.mem_append] at hi
    rcases hi with rfl | hi | hi
    · rw [hj, hj']
    · exact hb.children_eq hb' hi
    · exact hr.children_eq hr' hi

/-- The forest that is read from a tree in document order determines it, places and all. -/
theorem InOrder.eq_of_reads (ht : t.InOrder) (hu : u.InOrder) (hf : t.Reads f) (hg : u.Reads f) : t = u := by
  have hnodes : t.nodes = u.nodes := (ht.nodes_eq hf).trans (hu.nodes_eq hg).symm
  have hsize : t.size = u.size := by rw [← length_nodes, ← length_nodes, hnodes]
  obtain ⟨places, hplaces, hmap⟩ := hf
  obtain ⟨places', hplaces', hmap'⟩ := hg
  obtain rfl : places = places' := by
    refine Forest.eq_of_map_eq_map (hmap.trans hmap'.symm) ?_
    rw [← hplaces.order_eq, ← hplaces'.order_eq, ht.order, hu.order, hsize]
  have hentries : t.entries = u.entries := by
    refine Array.ext hsize fun i hi hi' => ?_
    have hnode : t.entries[i].node = u.entries[i].node := by
      simpa [nodes, hi, hi'] using congrArg (·[i]?) hnodes
    have hmem : i ∈ (Forest.cons 0 places .nil).toList := by
      have hi : i < t.size := hi
      rw [Forest.toList_cons, Forest.toList_nil, List.append_nil, ← hplaces.order_eq, ht.order, List.mem_cons,
        List.mem_range'_1]
      omega
    have hchildren : t.entries[i].children = u.entries[i].children := by
      have h := hplaces.children_eq hplaces' hmem
      rwa [Tree.children, Tree.children, Entry.childrenAt_eq (Array.getElem?_eq_getElem hi),
        Entry.childrenAt_eq (Array.getElem?_eq_getElem hi')] at h
    exact (Entry.mk.injEq ..).mpr ⟨hnode, hchildren⟩
  obtain ⟨entries, linked⟩ := t
  obtain rfl : entries = u.entries := hentries
  rfl

end Tree

theorem exists_token_of_mem_reads {strict : Bool} {tokens : List Token} {p : Parsed} {f : Forest Node}
    (h : parse strict tokens = .ok p) (hf : p.tree.Reads f) :
    ∀ n ∈ f.toList, ∃ t : Token, (∀ c, t.role ≠ .closer c) ∧ n = t.node := by
  rw [toList_of_reads h hf]
  intro n hn
  obtain ⟨t, ht, rfl⟩ := List.mem_map.mp hn
  refine ⟨t, fun c hc => ?_, rfl⟩
  simp [Token.isCloser, hc] at ht

theorem exists_outline {strict : Bool} {tokens : List Token} {p : Parsed} {depth : Nat} {j : Json}
    (h : parse strict tokens = .ok p) (hj : p.tree.outlineWithin? depth 0 = some j) :
    ∃ f : Forest Node, p.tree.Reads f ∧ f.Proper ∧ j = Node.outline { element := .root } f.outlines := by
  have hreads := reads_document h
  rw [hreads.outlineWithin?_eq, Option.ite_none_right_eq_some] at hj
  exact ⟨_, hreads, hreads.proper, (Option.some.inj hj.2).symm⟩

/-- There is an outline of a parsed tree unless the tree is nested too deep for it, and two trees whose outlines are
    written alike are the same, node for node and place for place. -/
theorem outline_determines_tree :
    (∀ ts : List Token, ∃ p f, parse false ts = .ok p ∧ p.tree.Reads f ∧
      ∀ depth, (p.tree.outlineWithin? depth 0).isSome = true ↔ f.height < depth) ∧
    ∀ (strict strict' : Bool) (ts us : List Token) (p q : Parsed) (depth depth' : Nat) (j k : Json),
      parse strict ts = .ok p → parse strict' us = .ok q →
      p.tree.outlineWithin? depth 0 = some j → q.tree.outlineWithin? depth' 0 = some k →
      (j.write false = k.write false ↔ p.tree = q.tree) := by
  refine ⟨fun ts => ?_, fun strict strict' ts us p q depth depth' j k hp hq hj hk => ?_⟩
  · obtain ⟨p, hp, hreads, -⟩ := parse_false ts
    refine ⟨p, _, hp, hreads, fun depth => ?_⟩
    rw [hreads.outlineWithin?_eq]
    split <;> simp_all
  · obtain ⟨f, hf, hfproper, hj⟩ := exists_outline hp hj
    obtain ⟨g, hg, hgproper, hk⟩ := exists_outline hq hk
    subst hj hk
    refine ⟨fun h => ?_, fun h => ?_⟩
    · have houtlines : f.outlines = g.outlines := root_outline_injective (Json.write_injective h)
      obtain rfl := Forest.outlines_injective hfproper hgproper (exists_token_of_mem_reads hp hf)
        (exists_token_of_mem_reads hq hg) houtlines
      exact (inOrder_of_parse hp).eq_of_reads (inOrder_of_parse hq) hf hg
    · rw [h] at hf
      rw [hf.unique hg]

/-- An input in a group and the same input behind it: two nodes each, but not one outline. -/
theorem nested_input_outlined_apart :
    let inside : List Token := [⟨"group", ∅, 1⟩, ⟨"input", ∅, 2⟩]
    let behind : List Token := [⟨"group", ∅, 1⟩, ⟨"endgroup", ∅, 1⟩, ⟨"input", ∅, 2⟩]
    ∃ p q j k, parse false inside = .ok p ∧ parse false behind = .ok q ∧ p.tree.outline? 0 = some j ∧
      q.tree.outline? 0 = some k ∧ p.tree.nodes = q.tree.nodes ∧ j.write false ≠ k.write false := by
  intro inside behind
  obtain ⟨-, hdetermines⟩ := outline_determines_tree
  obtain ⟨p, hp, hpreads, -⟩ := parse_false inside
  obtain ⟨q, hq, hqreads, -⟩ := parse_false behind
  have hpoutline : p.tree.outline? 0 = some (Node.outline { element := .root } _) :=
    (hpreads.outlineWithin?_eq Tree.maxNesting).trans (if_pos (by decide))
  have hqoutline : q.tree.outline? 0 = some (Node.outline { element := .root } _) :=
    (hqreads.outlineWithin?_eq Tree.maxNesting).trans (if_pos (by decide))
  refine ⟨p, q, _, _, hp, hq, hpoutline, hqoutline, ?_, fun h => ?_⟩
  · rw [nodes_of_parse hp, nodes_of_parse hq]
    decide
  · have htree := (hdetermines false false inside behind p q _ _ _ _ hp hq hpoutline hqoutline).mp h
    have hforest := hpreads.unique (htree ▸ hqreads)
    exact absurd hforest (by decide)

end FormDirectives
