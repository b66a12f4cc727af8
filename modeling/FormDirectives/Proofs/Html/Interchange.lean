import FormDirectives.Proofs.Html.Decoding
import FormDirectives.Proofs.Tree.Order

/-! What a form shows depends on its directives and on the few properties that their elements are made of. Lines, the
    order of properties, all other properties, a default that is written out, and which closer it is that closes a
    container leave no trace: not in the HTML, escaped or not, nor in the datasources that the form asks for. -/

namespace FormDirectives

/-! ### Elements -/

theorem Props.nonempty?_eq (p : Props) (key : String) :
    p.nonempty? key = if p.text key = "" then none else some (p.text key) := by
  unfold nonempty? text OrderedMap.getD
  cases p.get? key <;> simp [Option.filter]

namespace Token
variable {t u : Token}

/-- The properties that the element of a directive is made of. The options of a select count if it has no source. -/
def relevantKeys (t : Token) : List String :=
  match t.role with
  | .opener .form => ["action", "method"]
  | .field .input => ["name", "label", "type"]
  | .field .checkbox => ["name", "label"]
  | .field .select =>
    if t.props.text "source" = "" then ["name", "label", "source", "options"] else ["name", "label", "source"]
  | .opener .group | .field .submit => ["label"]
  | .closer _ | .unknown => []

/-- Both are closers, or they have the same part in a form and stand for the same element. -/
def Interchangeable (t u : Token) : Prop := t.Matches element u

theorem element_congr (hdirective : t.directive = u.directive)
    (hprops : ∀ key ∈ t.relevantKeys, t.props.text key = u.props.text key) : t.element = u.element := by
  have hrole : t.role = u.role := congrArg Role.ofDirective hdirective
  unfold relevantKeys at hprops
  unfold element
  rw [← hrole, hdirective]
  cases h : t.role with
  | opener c =>
    cases c <;> simp only [h, List.forall_mem_cons] at hprops <;>
      simp only [Container.element, Props.nonempty?_eq, hprops]
  | closer c => rfl
  | unknown => rfl
  | field f =>
    cases f with
    | select =>
      simp only [h] at hprops
      simp only [Field.element, Props.nonempty?_eq]
      split at hprops <;> simp_all
    | _ =>
      simp only [h, List.forall_mem_cons] at hprops
      simp only [Field.element, Props.nonempty?_eq, hprops]

end Token

/-! ### Sources -/

namespace Tree
variable {t : Tree} {f : Forest Node}

theorem node?_eq_some {i : Nat} (h : i < t.size) : t.node? i = some (t.nodeAt i) := by
  obtain ⟨e, he⟩ : ∃ e, t.entries[i]? = some e := ⟨_, Array.getElem?_eq_getElem h⟩
  rw [nodeAt, node?, he]
  rfl

/-- The datasources of a tree are those of the nodes that are read from it, in document order. -/
theorem Reads.sources_eq (h : t.Reads f) : t.sources = distinct (f.toList.filterMap (·.element.source?)) := by
  obtain ⟨places, hplaces, rfl⟩ := h
  rw [sources, hplaces.order_eq, Forest.toList_map, List.filterMap_map]
  congr 1
  refine List.filterMap_congr fun i hi => ?_
  rw [node?_eq_some (hplaces.2.1.lt_size_of_mem hi)]
  rfl

end Tree

/-- Documents whose directives are interchangeable, place by place, show the same HTML and ask for the same
    datasources. The same directive with the same relevant properties is interchangeable, where a property that is
    missing is as good as an empty one. -/
theorem interchangeable_documents :
    (∀ t u : Token, t.directive = u.directive → (∀ key ∈ t.relevantKeys, t.props.text key = u.props.text key) →
      t.Interchangeable u) ∧
    ∀ ts us : List Token, List.Forall₂ Token.Interchangeable ts us →
      ∃ p q, parse false ts = .ok p ∧ parse false us = .ok q ∧
        (∀ escaped, p.tree.html escaped = q.tree.html escaped) ∧ p.tree.sources = q.tree.sources := by
  refine ⟨fun t u hdirective hprops => Or.inr ⟨congrArg Role.ofDirective hdirective,
    Token.element_congr hdirective hprops⟩, fun ts us h => ?_⟩
  obtain ⟨p, hp, hpreads, -⟩ := parse_false ts
  obtain ⟨q, hq, hqreads, -⟩ := parse_false us
  have helements : ((document ts).map Token.node).map Node.element = ((document us).map Token.node).map Node.element := by
    rw [Forest.map_map, Forest.map_map]
    exact document_map h
  refine ⟨p, q, hp, hq, fun escaped => ?_, ?_⟩
  · rw [hpreads.html_eq, hqreads.html_eq, Forest.markups_congr escaped helements]
  · have hlabels := congrArg Forest.toList helements
    rw [Forest.toList_map, Forest.toList_map _ (Forest.map _ (document us))] at hlabels
    have hsources := congrArg (List.filterMap Element.source?) hlabels
    rw [List.filterMap_map, List.filterMap_map] at hsources
    rw [hpreads.sources_eq, hqreads.sources_eq]
    exact congrArg distinct hsources

/-- A form, and the same form on other lines, with properties in another order, more of them, empty ones and defaults
    that are written out, and with its two containers closed the wrong way round. -/
theorem restated_form_interchangeable :
    let ts : List Token := [⟨"form", .ofList [("action", "/save")], 1⟩, ⟨"group", .ofList [("label", "Trip")], 2⟩,
      ⟨"select", .ofList [("name", "city"), ("source", "/cities")], 3⟩,
      ⟨"select", .ofList [("name", "class"), ("options", "first,second")], 4⟩, ⟨"chart", ∅, 5⟩,
      ⟨"endgroup", ∅, 6⟩, ⟨"endform", ∅, 7⟩]
    let us : List Token := [⟨"form", .ofList [("method", "post"), ("action", "/save")], 10⟩,
      ⟨"group", .ofList [("label", "Trip"), ("name", "trip")], 20⟩,
      ⟨"select", .ofList [("options", "Bern,Jena"), ("source", "/cities"), ("name", "city")], 30⟩,
      ⟨"select", .ofList [("source", ""), ("options", "first,second"), ("name", "class")], 40⟩,
      ⟨"chart", .ofList [("kind", "bar")], 50⟩, ⟨"endform", ∅, 60⟩, ⟨"endgroup", .ofList [("label", "End")], 70⟩]
    List.Forall₂ Token.Interchangeable ts us ∧
    ∃ p q, parse false ts = .ok p ∧ parse false us = .ok q ∧
      (∀ escaped, p.tree.html escaped = q.tree.html escaped) ∧ p.tree.sources = q.tree.sources := by
  intro ts us
  obtain ⟨hrelevant, hdocuments⟩ := interchangeable_documents
  have h : List.Forall₂ Token.Interchangeable ts us :=
    .cons (Or.inr (by decide)) <|
    .cons (hrelevant _ _ rfl (by decide)) <|
    .cons (hrelevant _ _ rfl (by decide)) <|
    .cons (hrelevant _ _ rfl (by decide)) <|
    .cons (hrelevant _ _ rfl (by decide)) <|
    .cons (Or.inl ⟨⟨_, rfl⟩, _, rfl⟩) <|
    .cons (Or.inl ⟨⟨_, rfl⟩, _, rfl⟩) .nil
  exact ⟨h, hdocuments ts us h⟩

end FormDirectives
