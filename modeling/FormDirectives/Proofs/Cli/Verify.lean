import FormDirectives.Proofs.Cli.Render
import FormDirectives.Proofs.Html.Fetched

/-! The command that verifies datasources. It looks up the sources that a form fetches, each once and in the order in
    which the form first names them, among those that the configuration registers. -/

namespace FormDirectives.Cli
open Files

section
variable {s : Store} {a : Arguments} {config : Config} {input text v : String} {t : Tree}

/-- No path leads to the working directory, which is no source. -/
theorem readSource_here (s : Store) : s.readSource (.ofString "") = .error (.missingInput (.ofString "")) := by
  have hpath : Path.ofString "" = { anchor := .relative, parts := [] } := by decide +kernel
  have hplace : s.place { anchor := .relative, parts := [] } = .ok [] := by
    have htext : '\x00' ∉ (Path.toString { anchor := .relative, parts := [] }).toList ∧
      ¬ Store.maxPathSize < (Path.toString { anchor := .relative, parts := [] }).utf8ByteSize := by decide +kernel
    rw [Store.place]
    simp only [if_neg htext.1, if_neg htext.2]
    rfl
  rw [hpath, Store.readSource, Store.readFile, Store.lookup, hplace]
  rfl

theorem nonempty?_of_readSource (h : s.readSource (.ofString input) = .ok text) :
    nonempty? (some input) = some input := by
  refine Option.filter_eq_some_iff.mpr ⟨rfl, ?_⟩
  rw [decide_eq_true_eq]
  rintro rfl
  rw [readSource_here] at h
  cases h

theorem missing_eq (r : Registry) (t : Tree) : r.missing t = t.sources.filter fun v => v ∉ r.entries.keys := by
  refine List.filter_congr fun v _ => ?_
  simp only [Registry.contains, ← OrderedMap.contains_iff]
  cases r.entries.contains v <;> rfl

theorem runDatasource_eq (hverify : a.verify = true) (hinput : a.input = some input)
    (hconfig : s.loadConfig (.ofString (a.config.getD "")) = .ok config)
    (htext : s.readSource (.ofString input) = .ok text) : runDatasource s a =
      let missing := (parseLenient (tokenize text)).tree.sources.filter fun v => v ∉ config.datasources.keys
      let config := a.config.getD ""
      if missing.isEmpty then .print s s!"All datasources used by {input} are registered.\n"
      else
        { store := s
          stderr := lines (missing.map fun m => s!"{input}: datasource '{m}' is not registered in {config}")
          ending := .exit 1 } := by
  unfold runDatasource verifySources
  simp only [hconfig, hverify, if_true, hinput, nonempty?_of_readSource htext, htext, missing_eq]
  rfl

end

/-- How the verification of a form ends, by the sources that the form fetches and those that are registered. -/
structure Verifies (o : Outcome) (input config : String) (sources registered : List String) : Prop where
  succeeds : o.ending = .exit 0 ↔ ∀ v ∈ sources, v ∈ registered
  fails : o.ending ≠ .exit 0 → o.ending = .exit 1
  warned : o.errors = lines ((sources.filter fun v => v ∉ registered).map fun v =>
    s!"{input}: datasource '{v}' is not registered in {config}")

section
variable {s : Store} {a : Arguments} {config : Config} {input text : String}

theorem verifies_runDatasource (hverify : a.verify = true) (hinput : a.input = some input)
    (hconfig : s.loadConfig (.ofString (a.config.getD "")) = .ok config)
    (htext : s.readSource (.ofString input) = .ok text) :
    Verifies (runDatasource s a) input (a.config.getD "") (parseLenient (tokenize text)).tree.sources
      config.datasources.keys := by
  rw [runDatasource_eq hverify hinput hconfig htext]
  generalize (parseLenient (tokenize text)).tree.sources = sources
  by_cases hall : ∀ v ∈ sources, v ∈ config.datasources.keys
  · have hmissing : (sources.filter fun v => v ∉ config.datasources.keys) = [] :=
      List.filter_eq_nil_iff.mpr fun v hv => by simpa using hall v hv
    simp only [hmissing]
    refine ⟨⟨fun _ => hall, fun _ => rfl⟩, fun h => absurd rfl h, ?_⟩
    simp only [hmissing]
    rfl
  · have hmissing : (sources.filter fun v => v ∉ config.datasources.keys).isEmpty = false := by
      rw [List.isEmpty_eq_false_iff, Ne, List.filter_eq_nil_iff]
      exact fun h => hall fun v hv => by simpa using h v hv
    simp only [hmissing]
    refine ⟨⟨fun h => (by cases h), fun h => absurd h hall⟩, fun _ => rfl, ?_⟩
    exact String.append_empty

end

/-- What the selects of a document ask for, what its HTML fetches, and what verification looks up is the same. The
    datasources of the tree are those that the directives before the closer of the root name, each where it is first
    named; the HTML fetches them as often as they are named; and a select that is no part of this holds options. -/
theorem verification_matches_html :
    (∀ tokens, ∃ p f, parse false tokens = .ok p ∧ p.tree.Reads f ∧ Firsts (requested tokens) p.tree.sources ∧
      (∀ escaped, p.tree.html escaped = Html.html escaped "" (Html.below f.pieces)) ∧
      Html.fetched (Html.below f.pieces) = requested tokens ∧
      (∀ t ∈ rooted 0 tokens, t.directive = "select" → t.node ∈ p.tree.nodes) ∧
      ∀ n ∈ p.tree.nodes, n.kind = "select" → n.Offers) ∧
    ∀ s args a config input text, read args = .ok (.datasource, a) → a.verify = true → a.input = some input →
      s.loadConfig (.ofString (a.config.getD "")) = .ok config → s.readSource (.ofString input) = .ok text →
      ∃ sources, Firsts (requested (tokenize text)) sources ∧
        Verifies (run s args) input (a.config.getD "") sources config.datasources.keys := by
  refine ⟨fun tokens => ?_, fun s args a config input text hargs hverify hinput hconfig htext => ?_⟩
  · obtain ⟨p, hp, -⟩ := parse_agrees tokens
    have hreads := reads_document hp
    exact ⟨p, _, hp, hreads, firsts_sources hp, hreads.html_pieces, fetched_pieces_of_parse hp hreads,
      fun t ht => node_mem_of_select hp ht, fun n hn => offers_of_mem_nodes hp hn⟩
  · obtain ⟨p, hp, -⟩ := parse_agrees (tokenize text)
    refine ⟨(parseLenient (tokenize text)).tree.sources, ?_, ?_⟩
    · rw [parseLenient, hp]
      exact firsts_sources hp
    · rw [run_eq hargs]
      exact verifies_runDatasource hverify hinput hconfig htext

/-- The one datasource of a form is registered; of the two of a torn form, that of its first select is not. -/
theorem signup_verified :
    (run signup ["datasource", "--config", "mdxform.yaml", "--verify", "--in", "form.mdx"]).ending = .exit 0 ∧
    (run signup ["datasource", "--config", "mdxform.yaml", "--verify", "--in", "torn.mdx"]).ending = .exit 1 ∧
    (run signup ["datasource", "--config", "mdxform.yaml", "--verify", "--in", "torn.mdx"]).errors =
      "torn.mdx: datasource '/trees' is not registered in mdxform.yaml\n" := by
  have hform := read_spelled .datasource [.value "--config" "mdxform.yaml", .flag "--verify",
    .value "--in" "form.mdx"] (by decide) (by decide)
  have htorn := read_spelled .datasource [.value "--config" "mdxform.yaml", .flag "--verify",
    .value "--in" "torn.mdx"] (by decide) (by decide)
  obtain ⟨sources, hsources, hsucceeds⟩ := verification_matches_html.2 signup _ _ _ _ _ hform rfl rfl loadConfig_signup
    readSource_signupForm
  obtain ⟨sources', hsources', hfails⟩ := verification_matches_html.2 signup _ _ _ _ _ htorn rfl rfl loadConfig_signup
    readSource_tornForm
  have hcities : sources = ["/cities"] := (hsources.unique (firsts_distinct _)).trans (by decide +kernel)
  have htrees : sources' = ["/trees", "/cities"] := (hsources'.unique (firsts_distinct _)).trans (by decide +kernel)
  subst hcities htrees
  refine ⟨hsucceeds.succeeds.mpr (by decide), hfails.fails fun h => ?_, hfails.warned.trans (by decide +kernel)⟩
  exact absurd (hfails.succeeds.mp h) (by decide)

end FormDirectives.Cli
