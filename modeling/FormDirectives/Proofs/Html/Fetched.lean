import FormDirectives.Proofs.Build.Composition
import FormDirectives.Proofs.Build.DocumentOrder
import FormDirectives.Proofs.Entries
import FormDirectives.Proofs.Html.Interchange

/-! Datasources in the HTML. A select that fetches its options has an opening of its own, with its datasource behind it.
    So the datasources that a form fetches can be read off the pieces of its HTML, in document order, and they are those
    that its directives name before the root is closed. The datasources of the tree are the same, each once. -/

namespace FormDirectives

/-! ### First occurrences -/

theorem firsts_distinct (values : List String) : Firsts values (distinct values) := by
  induction values using List.reverseRecOn with
  | nil => exact ⟨List.nodup_nil, fun _ => Iff.rfl, .nil⟩
  | append_singleton values v ih =>
    rw [distinct, List.foldl_append, List.foldl_cons, List.foldl_nil]
    change Firsts (values ++ [v]) (if v ∈ distinct values then distinct values else distinct values ++ [v])
    split
    · next hv => exact ih.concat_of_mem ((ih.mem v).mp hv)
    · next hv => exact ih.concat_of_notMem fun h => hv ((ih.mem v).mpr h)

/-! ### Fetching selects -/

namespace Html
variable {inner ps qs : List Piece} {p : Piece} {text v : String}

/-- The opening of a select that fetches its options. -/
def fetching : Piece := .fixed "<div hx-get=\""

def Piece.value? : Piece → Option String
  | .value text => some text
  | _ => none

/-- The values right behind such an opening. -/
def fetched : List Piece → List String
  | [] => []
  | p :: ps => (if p = fetching then (ps.head?.bind Piece.value?).toList else []) ++ fetched ps

theorem fetched_fetching (v : String) (ps : List Piece) : fetched (fetching :: .value v :: ps) = v :: fetched ps := rfl

theorem fetched_of_ne (h : p ≠ fetching) (ps : List Piece) : fetched (p :: ps) = fetched ps := by
  rw [fetched, if_neg h, List.nil_append]

theorem fetched_value (v : String) (ps : List Piece) : fetched (.value v :: ps) = fetched ps :=
  fetched_of_ne (fun heq => by cases heq) ps

theorem fixed_ne (h : text ≠ "<div hx-get=\"") : Piece.fixed text ≠ fetching := fun heq => h (Piece.fixed.inj heq)

theorem fetched_fixed (h : text ≠ "<div hx-get=\"") (ps : List Piece) : fetched (.fixed text :: ps) = fetched ps :=
  fetched_of_ne (fixed_ne h) ps

/-- The pieces do not break off behind an opening. -/
def Settled (ps : List Piece) : Prop := ps.getLast? ≠ some fetching

theorem settled_nil : Settled [] := nofun

theorem settled_concat (h : p ≠ fetching) (ps : List Piece) : Settled (ps ++ [p]) := by
  rw [Settled, List.getLast?_concat]
  exact fun heq => h (Option.some.inj heq)

theorem Settled.append (hp : Settled ps) (hq : Settled qs) : Settled (ps ++ qs) := by
  rcases List.eq_nil_or_concat' qs with rfl | ⟨qs, q, rfl⟩
  · rwa [List.append_nil]
  · rw [← List.append_assoc]
    rw [Settled, List.getLast?_concat] at hq ⊢
    exact hq

theorem fetched_append : ∀ {ps : List Piece}, Settled ps → ∀ qs, fetched (ps ++ qs) = fetched ps ++ fetched qs
  | [], _, _ => rfl
  | [p], h, qs => by
    have hp : p ≠ fetching := fun heq => h (congrArg some heq)
    rw [List.singleton_append, fetched_of_ne hp, fetched_of_ne hp]
    rfl
  | p :: q :: ps, h, qs => by
    have hrest : Settled (q :: ps) := by rwa [Settled, List.getLast?_cons_cons] at h
    -- What the first piece sees is the second, and that stays where it is.
    have htail := fetched_append hrest qs
    rw [List.cons_append, fetched, htail, ← List.append_assoc]
    rfl

/-! ### Elements -/

theorem fetched_options (options : List String) (ps : List Piece) :
    fetched (options.flatMap optionPieces ++ ps) = fetched ps := by
  induction options with
  | nil => rfl
  | cons option options ih =>
    simp (disch := decide +kernel) only [List.flatMap_cons, optionPieces, List.cons_append, List.nil_append,
      fetched_fixed, fetched_value, ih]

theorem fill_of_notMem (h : .content ∉ ps) (inner : List Piece) : fill inner ps = ps := by
  fun_induction fill inner ps with
  | case1 => rfl
  | case2 ps ih => exact absurd List.mem_cons_self h
  | case3 p ps hp ih => rw [ih fun hmem => h (List.mem_cons_of_mem p hmem)]

theorem fetched_selectPieces {head options : List Piece} (hhead : Settled head)
    (hoptions : ∀ ps, fetched (options ++ ps) = fetched ps) (name label : String) :
    fetched (selectPieces name label head options) = fetched head := by
  rw [selectPieces, List.append_assoc, List.append_assoc, List.append_assoc, fetched_append hhead]
  simp (disch := decide +kernel) only [labelPieces, List.cons_append, List.nil_append, fetched_fixed, fetched_value,
    hoptions]
  exact List.append_nil _

/-- A container fetches what is fetched in it. -/
theorem fetched_container {e : Element} (h : e.isContainer = true) (hinner : Settled inner) :
    fetched (fill inner (pieces e)) = fetched inner ∧ Settled (fill inner (pieces e)) := by
  cases e with
  | root =>
    rw [pieces, fill, fill, List.append_nil]
    exact ⟨rfl, hinner⟩
  | form action method =>
    simp (disch := decide +kernel) only [pieces, fill, fetched_fixed, fetched_value, fetched_append hinner, Settled,
      List.getLast?_cons, List.getLast?_concat, Option.getD_some]
    exact ⟨List.append_nil _, by decide +kernel⟩
  | group label =>
    simp (disch := decide +kernel) only [pieces, fill, fetched_fixed, fetched_value, fetched_append hinner, Settled,
      List.getLast?_cons, List.getLast?_concat, Option.getD_some]
    exact ⟨List.append_nil _, by decide +kernel⟩
  | _ => cases h

/-- Of all other elements only a select with a source fetches anything. -/
theorem fetched_leaf {e : Element} (h : e.isContainer = false) :
    fetched (pieces e) = e.source?.toList ∧ Settled (pieces e) := by
  cases e with
  | root | form action method | group label => cases h
  | select name label options source =>
    have hend : Piece.fixed "  </select>\n</div>" ≠ fetching := by decide +kernel
    rw [pieces]
    cases (Element.select name label options source).source? with
    | some v =>
      refine ⟨(fetched_selectPieces ?_ (fun _ => rfl) name label).trans ?_, settled_concat hend _⟩
      · simp only [Settled, List.getLast?_cons, List.getLast?_nil, Option.getD_some, Option.getD_none]
        decide +kernel
      · refine (fetched_fetching v _).trans (congrArg (v :: ·) ?_)
        simp (disch := decide +kernel) only [fetched_fixed, fetched_value]
        rfl
    | none =>
      have hoptions (ps : List Piece) : fetched (options.flatMap optionPieces ++ [.fixed "\n"] ++ ps) = fetched ps := by
        rw [List.append_assoc, fetched_options]
        exact fetched_fixed (by decide +kernel) ps
      refine ⟨(fetched_selectPieces ?_ hoptions name label).trans ?_, settled_concat hend _⟩
      · exact settled_concat (fixed_ne (by decide +kernel)) []
      · exact fetched_fixed (by decide +kernel) []
  | _ =>
    simp (disch := decide +kernel) only [pieces, labelPieces, List.cons_append, List.nil_append, fetched_fixed,
      fetched_value, Settled, List.getLast?_cons, List.getLast?_nil, Option.getD_some, Option.getD_none]
    exact ⟨rfl, by decide +kernel⟩

/-! ### Documents -/

theorem fetched_below : ∀ {documents : List (List Piece)}, (∀ ps ∈ documents, Settled ps) →
    fetched (below documents) = documents.flatMap fetched ∧ Settled (below documents)
  | [], _ => ⟨rfl, settled_nil⟩
  | [ps], h => by simpa [below] using h ps List.mem_cons_self
  | ps :: qs :: rest, h => by
    have hps := h ps List.mem_cons_self
    obtain ⟨hrest, hsettled⟩ := fetched_below fun qs hqs => h qs (List.mem_cons_of_mem ps hqs)
    have hbreak : Piece.fixed "\n" ≠ fetching := by decide +kernel
    rw [below_cons_cons, fetched_append hps, fetched_of_ne hbreak, hrest, List.flatMap_cons]
    exact ⟨rfl, hps.append ((settled_concat hbreak []).append hsettled)⟩

end Html

theorem Element.source?_of_isContainer {e : Element} (h : e.isContainer = true) : e.source? = none := by
  cases e with
  | select name label options source => cases h
  | _ => rfl

/-- A forest fetches the sources of its selects, in document order. -/
theorem Forest.fetched_pieces : ∀ {f : Forest Node}, f.Proper →
    f.pieces.flatMap Html.fetched = f.toList.filterMap (·.element.source?) ∧ ∀ ps ∈ f.pieces, Html.Settled ps
  | .nil, _ => ⟨rfl, nofun⟩
  | .cons n below rest, ⟨_, hleaf, hbelow, hrest⟩ => by
    obtain ⟨hbelow, hsettled⟩ := fetched_pieces hbelow
    obtain ⟨hrest, hsettled'⟩ := fetched_pieces hrest
    obtain ⟨hinner, hclosed⟩ := Html.fetched_below hsettled
    have hfirst : Html.fetched (Html.fill (Html.below below.pieces) (Html.pieces n.element)) =
          n.element.source?.toList ++ below.toList.filterMap (·.element.source?) ∧
        Html.Settled (Html.fill (Html.below below.pieces) (Html.pieces n.element)) := by
      cases h : n.isContainer with
      | true =>
        rw [Element.source?_of_isContainer h, ← hbelow, ← hinner]
        exact Html.fetched_container h hclosed
      | false =>
        -- A leaf shows nothing below it, and there is nothing.
        rw [hleaf h, Html.fill_of_notMem (Element.content_notMem_pieces h)]
        exact (Html.fetched_leaf h).imp_left fun hfetched => hfetched.trans (List.append_nil _).symm
    have hpieces : (cons n below rest).pieces =
        Html.fill (Html.below below.pieces) (Html.pieces n.element) :: rest.pieces := rfl
    rw [hpieces, List.flatMap_cons, hfirst.1, hrest, toList_cons]
    refine ⟨?_, List.forall_mem_cons.mpr ⟨hfirst.2, hsettled'⟩⟩
    cases hsource : n.element.source? <;> simp [hsource]

/-! ### Directives -/

/-- The datasource that a directive names, if it is a select with one. -/
def Token.source? (t : Token) : Option String := if t.directive = "select" then t.props.nonempty? "source" else none

/-- The datasources that the directives before the closer of the root name, as often as they do. -/
def requested (tokens : List Token) : List String := (rooted 0 tokens).filterMap Token.source?

namespace Token
variable {t : Token}

theorem role_eq_select : t.role = .field .select ↔ t.directive = "select" := by
  refine ⟨fun h => ?_, fun h => ?_⟩
  · unfold role Role.ofDirective at h
    split at h <;> simp_all
  · rw [role, h]
    rfl

theorem source?_element (t : Token) : t.element.source? = t.source? := by
  by_cases h : t.directive = "select"
  · rw [source?, if_pos h, element, role_eq_select.mpr h]
    simp only [Field.element]
    cases hsource : t.props.nonempty? "source" with
    | some v => exact Element.source?_of_ne (Props.ne_of_nonempty? hsource) _ _ _
    | none => rfl
  · rw [source?, if_neg h, element]
    split
    · next c _ => cases c <;> rfl
    · next f hrole =>
      cases f with
      | select => exact absurd (role_eq_select.mp hrole) h
      | _ => rfl
    · rfl
    · rfl

theorem source?_of_isCloser (h : t.isCloser = true) : t.source? = none := by
  rw [source?, if_neg]
  intro hselect
  rw [isCloser, role_eq_select.mpr hselect] at h
  cases h

end Token

/-! ### Trees -/

/-- The options that an element holds. -/
def Element.options : Element → List String
  | select _ _ options _ => options
  | _ => []

/-- A select fetches its options from the source that it was given, or else it holds some. -/
structure Node.Offers (n : Node) : Prop where
  source : n.element.source? = n.props.nonempty? "source"
  dynamic : n.element.isDynamic = (n.props.nonempty? "source").isSome
  options : n.element.options = [] ↔ n.element.isDynamic = true
  fetched : Html.fetched (Html.pieces n.element) = (n.props.nonempty? "source").toList

theorem splitOptions_ne_nil (text : String) : splitOptions text ≠ [] := by
  rw [splitOptions, Ne, List.map_eq_nil_iff]
  exact List.splitOn_ne_nil _ _

theorem Token.offers_node {t : Token} (h : t.directive = "select") : t.node.Offers := by
  have hsource : t.node.element.source? = t.props.nonempty? "source" := (source?_element t).trans (if_pos h)
  have helement : t.node.element = Field.select.element t.props := by rw [node, element, role_eq_select.mpr h]
  have hleaf : t.node.element.isContainer = false := by
    rw [helement, Field.element]
    split <;> rfl
  refine ⟨hsource, ?_, ?_, by rw [(Html.fetched_leaf hleaf).1, hsource]; rfl⟩
  · rw [helement, Field.element]
    split <;> simp_all [Element.isDynamic, node]
  · rw [helement, Field.element]
    split
    · simp [Element.options, Element.isDynamic]
    · simp [Element.options, Element.isDynamic, splitOptions_ne_nil]

section
variable {strict : Bool} {tokens : List Token} {p : Parsed} {f : Forest Node}

/-- Closers name no datasource, so it makes no difference that they have no nodes. -/
theorem filterMap_source?_toList (h : parse strict tokens = .ok p) (hf : p.tree.Reads f) :
    f.toList.filterMap (·.element.source?) = requested tokens := by
  rw [toList_of_reads h hf, List.filterMap_map, List.filterMap_filter, requested]
  refine List.filterMap_congr fun t _ => ?_
  cases hcloser : t.isCloser with
  | true => exact (Token.source?_of_isCloser hcloser).symm
  | false => exact Token.source?_element t

theorem firsts_sources (h : parse strict tokens = .ok p) : Firsts (requested tokens) p.tree.sources := by
  have hreads := reads_document h
  rw [hreads.sources_eq, filterMap_source?_toList h hreads]
  exact firsts_distinct _

theorem fetched_pieces_of_parse (h : parse strict tokens = .ok p) (hf : p.tree.Reads f) :
    Html.fetched (Html.below f.pieces) = requested tokens := by
  have hreads := reads_document h
  cases hreads.unique hf
  obtain ⟨hfetched, hsettled⟩ := Forest.fetched_pieces hreads.proper
  rw [(Html.fetched_below hsettled).1, hfetched, filterMap_source?_toList h hreads]

theorem node_mem_of_select (h : parse strict tokens = .ok p) {t : Token} (ht : t ∈ rooted 0 tokens)
    (hselect : t.directive = "select") : t.node ∈ p.tree.nodes := by
  have hcloser : t.isCloser = false := by rw [Token.isCloser, Token.role_eq_select.mpr hselect]
  rw [nodes_of_parse h]
  exact List.mem_cons_of_mem _ (List.mem_map_of_mem (List.mem_filter.mpr ⟨ht, by rw [hcloser]; rfl⟩))

theorem offers_of_mem_nodes (h : parse strict tokens = .ok p) {n : Node} (hn : n ∈ p.tree.nodes)
    (hkind : n.kind = "select") : n.Offers := by
  rw [nodes_of_parse h] at hn
  rcases List.mem_cons.mp hn with rfl | hn
  · exact absurd hkind (by decide)
  · obtain ⟨t, ht, rfl⟩ := List.mem_map.mp hn
    have hrole : ∀ c, t.role ≠ .closer c := fun c hc => by
      simp [Token.isCloser, hc] at ht
    exact Token.offers_node ((Token.kind_node hrole).symm.trans hkind)

end

end FormDirectives
