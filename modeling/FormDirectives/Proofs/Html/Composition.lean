import FormDirectives.Compile
import FormDirectives.Proofs.Build.Composition
import FormDirectives.Proofs.Html.Decoding
import FormDirectives.Proofs.Token.Printed

/-! Compilation goes along with the ways to put sources together. Below a source that is balanced another one is
    compiled as if it stood alone, and in a container its HTML stands at the content of the container's markup. Lines
    are numbered anew and nodes get other places, which the HTML does not show. -/

namespace FormDirectives

/-- Two texts one below the other; an empty one takes no line. -/
def stacked (upper lower : String) : String :=
  if upper = "" then lower else if lower = "" then upper else upper ++ "\n" ++ lower

/-- A source in a container of its own. -/
def Container.around (c : Container) (p : Props) (source : String) : String :=
  directiveLine c.kind p ++ "\n" ++ source ++ "\n" ++ directiveLine c.closer ∅

/-! ### Texts one below the other -/

theorem intercalate_ne_empty : ∀ {texts : List String}, texts ≠ [] → (∀ text ∈ texts, text ≠ "") →
    "\n".intercalate texts ≠ ""
  | [], h, _ => absurd rfl h
  | [text], _, htexts => by
    rw [String.intercalate_singleton]
    exact htexts text List.mem_cons_self
  | text :: next :: rest, _, _ => by
    rw [String.intercalate_cons_cons]
    intro hempty
    simp at hempty

theorem intercalate_append {upper lower : List String} (hupper : ∀ text ∈ upper, text ≠ "")
    (hlower : ∀ text ∈ lower, text ≠ "") :
    "\n".intercalate (upper ++ lower) = stacked ("\n".intercalate upper) ("\n".intercalate lower) := by
  by_cases hu : upper = []
  · subst hu
    rw [List.nil_append, stacked, if_pos String.intercalate_nil]
  · by_cases hl : lower = []
    · subst hl
      rw [List.append_nil, stacked, if_neg (intercalate_ne_empty hu hupper), if_pos String.intercalate_nil]
    · rw [stacked, if_neg (intercalate_ne_empty hu hupper), if_neg (intercalate_ne_empty hl hlower),
        String.intercalate_append_of_ne_nil hu hl]

/-! ### Markups -/

namespace Element

/-- The markup of every element but the root begins with a fixed text. -/
theorem exists_pieces {e : Element} (h : e ≠ root) : ∃ text ps, Html.pieces e = .fixed text :: ps ∧ text ≠ "" := by
  cases e with
  | root => exact absurd rfl h
  | select name label options source =>
    simp only [Html.pieces]
    split
    · exact ⟨_, _, rfl, by simp⟩
    · exact ⟨_, _, rfl, by simp⟩
  | _ => exact ⟨_, _, rfl, by simp⟩

theorem markup_ne_empty {e : Element} (h : e ≠ root) (escaped : Bool) (below : List String) :
    e.markup escaped below ≠ "" := by
  obtain ⟨text, ps, hpieces, htext⟩ := exists_pieces h
  rw [markup, hpieces, Html.html_cons]
  intro hempty
  exact htext (String.append_eq_empty_iff.mp hempty).1

end Element

/-- The markups of the trees that a document holds. -/
def documentMarkups (escaped : Bool) (ts : List Token) : List String :=
  ((document ts).map Token.node).markups escaped

theorem Forest.markups_append (escaped : Bool) (g : Forest Node) : ∀ f : Forest Node,
    (f ++ g).markups escaped = f.markups escaped ++ g.markups escaped
  | .nil => rfl
  | .cons n below rest => by
    rw [cons_append, markups, markups, markups_append escaped g rest, List.cons_append]

theorem Forest.ne_empty_of_mem_markups (escaped : Bool) : ∀ f : Forest Token,
    ∀ text ∈ (f.map Token.node).markups escaped, text ≠ ""
  | .nil => by simp [markups]
  | .cons t below rest => by
    rw [map_cons, markups, List.forall_mem_cons]
    exact ⟨Element.markup_ne_empty t.element_ne_root escaped _, ne_empty_of_mem_markups escaped rest⟩

section
variable {escaped : Bool} {f : Forest Token} {ts us : List Token} {c : Container} {t u : Token}

/-- The markups do not show on which lines the directives stand. -/
theorem documentMarkups_down (escaped : Bool) (lines : Nat) (ts : List Token) :
    documentMarkups escaped (ts.map (Token.down lines)) = documentMarkups escaped ts := by
  have hmatches : List.Forall₂ (Token.Matches Token.element) (ts.map (Token.down lines)) ts := by
    rw [List.forall₂_map_left_iff, List.forall₂_same]
    exact fun t _ => Or.inr ⟨rfl, rfl⟩
  have helements := document_map hmatches
  refine Forest.markups_congr escaped ?_
  rw [Forest.map_map, Forest.map_map]
  exact helements

theorem documentMarkups_append (h : Balanced f ts) (us : List Token) :
    documentMarkups escaped (ts ++ us) = documentMarkups escaped ts ++ documentMarkups escaped us := by
  simp only [documentMarkups, document_append h, document_of_balanced h, Forest.map_append, Forest.markups_append]

theorem documentMarkups_container (opens : t.directive = c.kind) (h : Balanced f ts)
    (closes : u.directive = c.closer) : documentMarkups escaped (t :: (ts ++ [u])) =
      [(c.element t.props).markup escaped (documentMarkups escaped ts)] := by
  have hitem : Balanced (.cons t f .nil) (t :: (ts ++ [u])) := .container opens h closes .nil
  simp only [documentMarkups, document_of_balanced hitem, document_of_balanced h, Forest.map_cons, Forest.map_nil,
    Forest.markups, Token.node, Token.element_of_opener (Token.role_eq_opener.mpr opens)]

end

/-! ### Sources -/

/-- The HTML of a source that is parsed. -/
def sourceHtml (escaped : Bool) (source : String) : String :=
  "\n".intercalate (documentMarkups escaped (tokenize source))

section
variable {escaped : Bool} {f : Forest Token} {a : String} {p : Props}

theorem tokenize_around (c : Container) (hp : p.Printable) (a : String) : ∃ first last,
    tokenize (c.around p a) =
      ⟨c.kind, p, 1⟩ :: ((tokenize a).map (Token.down first) ++ [Token.down last ⟨c.closer, ∅, 1⟩]) := by
  have hkind : Text.IsWordRun c.kind.toList := by cases c <;> decide
  have hcloser : Text.IsWordRun c.closer.toList := by cases c <;> decide
  have hnone : Props.Printable ∅ := by decide
  refine ⟨lineCount (directiveLine c.kind p), lineCount (directiveLine c.kind p ++ "\n" ++ a), ?_⟩
  rw [Container.around, tokenize_append, tokenize_append, tokenize_directiveLine hkind hp,
    tokenize_directiveLine hcloser hnone]
  rfl

/-- Below a balanced source another one shows what it shows alone. -/
theorem sourceHtml_append (ha : Balanced f (tokenize a)) (escaped : Bool) (b : String) :
    sourceHtml escaped (a ++ "\n" ++ b) = stacked (sourceHtml escaped a) (sourceHtml escaped b) := by
  rw [sourceHtml, tokenize_append, documentMarkups_append ha, documentMarkups_down]
  exact intercalate_append (Forest.ne_empty_of_mem_markups escaped _) (Forest.ne_empty_of_mem_markups escaped _)

/-- In a container a balanced source stands at the content of the container's markup. -/
theorem sourceHtml_around (ha : Balanced f (tokenize a)) (escaped : Bool) (c : Container) (hp : p.Printable) :
    sourceHtml escaped (c.around p a) = Html.html escaped (sourceHtml escaped a) (Html.pieces (c.element p)) := by
  obtain ⟨first, last, htokens⟩ := tokenize_around c hp a
  rw [sourceHtml, htokens, documentMarkups_container rfl (ha.down first) rfl, documentMarkups_down,
    String.intercalate_singleton]
  rfl

theorem html_of_parse {strict : Bool} {source : String} {q : Parsed} (h : parse strict (tokenize source) = .ok q)
    (escaped : Bool) : q.tree.html escaped = sourceHtml escaped source := (reads_document h).html_eq escaped

theorem compileHtml_eq (source : String) : compileHtml source = sourceHtml false source := by
  obtain ⟨q, hq, -⟩ := parse_false (tokenize source)
  rw [compileHtml, parseLenient, hq]
  exact html_of_parse hq false

variable {config : Config} {source : String} {r : Compiled}

theorem html_of_compile (h : compile config source = .ok r) : r.html = sourceHtml config.escape source := by
  obtain ⟨q, hq, rfl⟩ := exists_parsed_of_compile h
  exact html_of_parse hq config.escape

theorem exists_compile_iff :
    (∃ r, compile config source = .ok r) ↔ (config.strict = true → ∃ f, Balanced f (tokenize source)) := by
  rw [← exists_parse_iff, compile]
  cases parse config.strict (tokenize source) with
  | error e =>
    constructor
    · rintro ⟨r, hr⟩
      cases hr
    · rintro ⟨q, hq⟩
      cases hq
  | ok q => exact ⟨fun _ => ⟨q, rfl⟩, fun _ => ⟨_, rfl⟩⟩

theorem exists_compile_append (ha : Balanced f (tokenize a)) {b : String} {s : Compiled}
    (hs : compile config b = .ok s) : ∃ t, compile config (a ++ "\n" ++ b) = .ok t := by
  refine exists_compile_iff.mpr fun hstrict => ?_
  obtain ⟨g, hg⟩ := exists_compile_iff.mp ⟨s, hs⟩ hstrict
  rw [tokenize_append]
  exact ⟨_, ha.append (hg.down _)⟩

theorem exists_compile_around (ha : Balanced f (tokenize a)) (config : Config) (c : Container) (hp : p.Printable) :
    ∃ t, compile config (c.around p a) = .ok t := by
  refine exists_compile_iff.mpr fun _ => ?_
  obtain ⟨first, last, htokens⟩ := tokenize_around c hp a
  rw [htokens]
  exact ⟨_, .container rfl (ha.down first) rfl .nil⟩

end

/-- Compilation is compositional. Below a source that strict parsing accepts, any other source compiles to the HTML
    that it compiles to alone; put in a container, such a source compiles to the container's markup with its own HTML
    at the content. Under all options what is put together like this is compiled if its parts are. -/
theorem compilation_composes {a : String} (ha : ∃ p, parse true (tokenize a) = .ok p) :
    (∀ b, compileHtml (a ++ "\n" ++ b) = stacked (compileHtml a) (compileHtml b)) ∧
    (∀ (c : Container) (p : Props), p.Printable →
      compileHtml (c.around p a) = Html.html false (compileHtml a) (Html.pieces (c.element p))) ∧
    ∀ config : Config, ∃ r, compile config a = .ok r ∧
      (∀ b, (config.strict = false → ∃ s, compile config b = .ok s) ∧
        ∀ s, compile config b = .ok s →
          ∃ t, compile config (a ++ "\n" ++ b) = .ok t ∧ t.html = stacked r.html s.html) ∧
      ∀ (c : Container) (p : Props), p.Printable → ∃ t, compile config (c.around p a) = .ok t ∧
        t.html = Html.html config.escape r.html (Html.pieces (c.element p)) := by
  obtain ⟨f, hf⟩ := exists_parse_iff.mp ha rfl
  refine ⟨fun b => ?_, fun c p hp => ?_, fun config => ?_⟩
  · simp only [compileHtml_eq, sourceHtml_append hf]
  · simp only [compileHtml_eq, sourceHtml_around hf false c hp]
  obtain ⟨r, hr⟩ : ∃ r, compile config a = .ok r := exists_compile_iff.mpr fun _ => ⟨f, hf⟩
  refine ⟨r, hr, fun b => ⟨fun hlenient => ?_, fun s hs => ?_⟩, fun c p hp => ?_⟩
  · exact exists_compile_iff.mpr fun hstrict => absurd hstrict (by simp [hlenient])
  · obtain ⟨t, ht⟩ := exists_compile_append hf hs
    exact ⟨t, ht, by rw [html_of_compile ht, html_of_compile hr, html_of_compile hs, sourceHtml_append hf]⟩
  · obtain ⟨t, ht⟩ := exists_compile_around hf config c hp
    exact ⟨t, ht, by rw [html_of_compile ht, html_of_compile hr, sourceHtml_around hf config.escape c hp]⟩

/-- A group with a field in it, above a closer that closes nothing of it, and in a form. -/
theorem group_composes :
    let a := "@group label=\"Trip\"\n@input name=\"city\"\n@endgroup"
    let p : Props := .ofList [("action", "/save"), ("method", "put")]
    (∃ q, parse true (tokenize a) = .ok q) ∧ p.Printable ∧
      compileHtml (a ++ "\n" ++ "@endform\n@submit") = stacked (compileHtml a) (compileHtml "@endform\n@submit") ∧
      compileHtml (Container.form.around p a) =
        Html.html false (compileHtml a) (Html.pieces (.form "/save" "put")) := by
  intro a p
  have ha : ∃ q, parse true (tokenize a) = .ok q := by
    have hok : (parse true (tokenize a)).isOk = true := by decide +kernel
    cases hparse : parse true (tokenize a) with
    | error e =>
      rw [hparse] at hok
      cases hok
    | ok q => exact ⟨q, rfl⟩
  have hp : p.Printable := by decide
  obtain ⟨hbelow, haround, -⟩ := compilation_composes ha
  exact ⟨ha, hp, hbelow _, haround .form p hp⟩

end FormDirectives
