import FormDirectives.Proofs.Cli.Current
import FormDirectives.Proofs.Cli.Verify
import FormDirectives.Proofs.Config.Validation

/-! Loading configurations. A document that is empty leaves all options at their defaults, and any other has to be a
    mapping with nothing amiss. What is refused is refused with words, and so is every command line that names the file
    as its configuration, whatever else it says. -/

namespace FormDirectives
open Files

namespace Config
variable {v : Data} {c : Config}

/-- Only mappings are accepted, and of these the ones with nothing amiss. -/
theorem exists_ofData_iff_mapping : (∃ c, ofData v = .ok c) ↔
    ∃ entries, v = .map entries ∧ ∀ e ∈ entries, ∀ f, ¬ Setting.Amiss e f := by
  cases v with
  | map entries =>
    simp only [exists_ofData_iff, List.eq_nil_iff_forall_not_mem, Setting.mem_faults_ofEntry]
    refine ⟨fun h => ⟨entries, rfl, h⟩, ?_⟩
    rintro ⟨_, ⟨⟩, h⟩
    exact h
  | _ => exact ⟨nofun, nofun⟩

theorem ne_nil_of_ofData {fs : List Fault} (h : ofData v = .error fs) : fs ≠ [] := by
  rintro rfl
  obtain ⟨c, hc⟩ := blames_ofData v (congrArg Read.faults h)
  cases h.symm.trans hc

theorem eq_of_ofData_of_empty (hempty : v.isEmpty = true) (h : ofData v = .ok c) : c = {} := by
  obtain ⟨entries, rfl, -⟩ := exists_ofData_iff_mapping.mp ⟨c, h⟩
  rw [Data.isEmpty, List.isEmpty_iff] at hempty
  subst hempty
  exact (Except.ok.inj h).symm

end Config

namespace Files.Store
variable {s : Store} {p : Path} {text : String} {v : Data} {c : Config}

/-- Why a document is no configuration. -/
inductive Refusal (p : Path) : Failure → Prop
  | noMapping : Refusal p (.configNoMapping p)
  | invalid {fs : List Fault} : fs ≠ [] → Refusal p (.invalidConfig p fs)

theorem Refusal.exists_words {f : Failure} (h : Refusal p f) : ∃ words, f.words? = some words := by
  cases h with
  | noMapping => exact ⟨_, rfl⟩
  | invalid => exact ⟨_, rfl⟩

theorem configOfText_of_empty (hload : Yaml.load text = .ok v) (hempty : v.isEmpty = true) :
    configOfText p text = .ok {} := by
  rw [configOfText, hload]
  simp only [hempty, if_true]
  rfl

theorem configOfText_of_mapping {entries : List (Data × Data)} (hload : Yaml.load text = .ok (.map entries)) :
    configOfText p text = (Config.ofData (.map entries)).mapError (.invalidConfig p) := by
  rw [configOfText, hload]
  cases entries <;> rfl

theorem configOfText_of_not_mapping (hload : Yaml.load text = .ok v) (hempty : v.isEmpty = false)
    (hmap : ∀ entries, v ≠ .map entries) : configOfText p text = .error (.configNoMapping p) := by
  rw [configOfText, hload]
  cases v with
  | map entries => exact absurd rfl (hmap entries)
  | _ => simp only [hempty, Bool.false_eq_true, if_false]

/-- A document is a configuration, that of its data or the defaults if it is empty, or it is refused. -/
theorem configOfText_cases (p : Path) (hload : Yaml.load text = .ok v) :
    (v.isEmpty = true ∧ configOfText p text = .ok {}) ∨
    (∃ c, v.isEmpty = false ∧ Config.ofData v = .ok c ∧ configOfText p text = .ok c) ∨
    v.isEmpty = false ∧ (∀ c, Config.ofData v ≠ .ok c) ∧ ∃ f, Refusal p f ∧ configOfText p text = .error f := by
  cases hempty : v.isEmpty with
  | true => exact Or.inl ⟨rfl, configOfText_of_empty hload hempty⟩
  | false =>
    refine Or.inr ?_
    by_cases hmap : ∃ entries, v = .map entries
    · obtain ⟨entries, rfl⟩ := hmap
      rw [configOfText_of_mapping hload]
      cases hdata : Config.ofData (.map entries) with
      | ok c => exact Or.inl ⟨c, rfl, rfl, rfl⟩
      | error fs => exact Or.inr ⟨rfl, nofun, _, .invalid (Config.ne_nil_of_ofData hdata), rfl⟩
    · have hdata : ∀ c, Config.ofData v ≠ .ok c := fun c hc => by
        obtain ⟨entries, rfl, -⟩ := Config.exists_ofData_iff_mapping.mp ⟨c, hc⟩
        exact hmap ⟨entries, rfl⟩
      exact Or.inr ⟨rfl, hdata, _, .noMapping,
        configOfText_of_not_mapping hload hempty fun entries h => hmap ⟨entries, h⟩⟩

end Files.Store

namespace Cli
variable {s : Store} {args : List String} {command : Command} {a : Arguments} {path text : String} {f : Failure}

theorem nonempty?_of_read (h : s.read (.ofString path) = .ok text) : nonempty? (some path) = some path :=
  nonempty?_of_readSource (Store.readFile_eq_ok.mpr h)

theorem resolveConfig_of_error (hpath : nonempty? a.config = some path) (h : s.loadConfig (.ofString path) = .error f) :
    resolveConfig s a = .error f := by
  unfold resolveConfig
  rw [hpath]
  simp only [h]
  rfl

/-- A command that takes a configuration does nothing without it. -/
theorem run_of_loadConfig (hread : read args = .ok (command, a)) (hoption : "--config" ∈ command.options.map Opt.name)
    (hconfig : a.config = some path) (hpath : nonempty? (some path) = some path)
    (hload : s.loadConfig (.ofString path) = .error f) : run s args = .fail s f := by
  have hresolve : resolveConfig s a = .error f := resolveConfig_of_error (hconfig ▸ hpath) hload
  rw [run_eq hread]
  cases command with
  | render => rw [runCommand, runRender, hresolve]
  | check =>
    rw [runCommand, runCheck, hresolve]
    rfl
  | tokens => exact absurd hoption (by decide)
  | ast => exact absurd hoption (by decide)
  | datasource =>
    rw [runCommand]
    unfold runDatasource
    rw [hconfig, Option.getD_some, hload]

/-- The document of a file is a configuration if it is empty, and then that of the defaults, or else exactly if it is a
    mapping with nothing amiss, as its data is read. Any other is refused with words for it, and that is all that comes
    of a command line which names the file as its configuration. -/
theorem configuration_of_document {path text : String} {v : Data} (s : Store)
    (hread : s.read (.ofString path) = .ok text) (hload : Yaml.load text = .ok v) :
    (∀ c, s.loadConfig (.ofString path) = .ok c ↔ v.isEmpty = true ∧ c = {} ∨ Config.ofData v = .ok c) ∧
    ((∃ c, Config.ofData v = .ok c) ↔ ∃ entries, v = .map entries ∧ ∀ e ∈ entries, ∀ f, ¬ Setting.Amiss e f) ∧
    ((∀ c, s.loadConfig (.ofString path) ≠ .ok c) →
      ∃ f words, s.loadConfig (.ofString path) = .error f ∧ f.words? = some words ∧
        ∀ args command a, read args = .ok (command, a) → "--config" ∈ command.options.map Opt.name →
          a.config = some path → run s args = .fail s f) := by
  have hcases := Store.configOfText_cases (.ofString path) hload
  rw [← loadConfig_of_read hread] at hcases
  refine ⟨fun c => ?_, Config.exists_ofData_iff_mapping, fun hrefused => ?_⟩
  · rcases hcases with ⟨hempty, hloaded⟩ | ⟨_, hempty, hdata, hloaded⟩ | ⟨hempty, hdata, f, -, hloaded⟩
    · rw [hloaded, Except.ok.injEq, eq_comm]
      refine ⟨fun h => Or.inl ⟨hempty, h⟩, ?_⟩
      rintro (⟨-, h⟩ | h)
      · exact h
      · exact Config.eq_of_ofData_of_empty hempty h
    · simp only [hloaded, hdata, hempty, Except.ok.injEq, Bool.false_eq_true, false_and, false_or]
    · simp only [hloaded, hempty, hdata c, Bool.false_eq_true, false_and, or_self, reduceCtorEq]
  · rcases hcases with ⟨-, hloaded⟩ | ⟨c, -, -, hloaded⟩ | ⟨-, -, f, hrefusal, hloaded⟩
    · exact absurd hloaded (hrefused _)
    · exact absurd hloaded (hrefused c)
    · obtain ⟨words, hwords⟩ := hrefusal.exists_words
      exact ⟨f, words, hloaded, hwords, fun args command a hargs hoption hconfig =>
        run_of_loadConfig hargs hoption hconfig (nonempty?_of_read hread) hloaded⟩

/-! ### Lists of texts -/

def text? : Data → Option String
  | .text s => some s
  | _ => none

/-- The texts of a list of texts. -/
def texts? : Data → Option (List String)
  | .list items => items.mapM text?
  | _ => none

theorem map_text_of_mapM : ∀ {items : List Data} {ss : List String}, items.mapM text? = some ss → ss.map .text = items
  | [], ss, h => by
    cases h
    rfl
  | d :: items, ss, h => by
    rw [List.mapM_cons, Option.bind_eq_bind, Option.bind_eq_some_iff] at h
    obtain ⟨s, hs, h⟩ := h
    obtain ⟨rest, hrest, h⟩ := Option.bind_eq_some_iff.mp h
    cases h
    cases d with
    | text t =>
      cases hs
      rw [List.map_cons, map_text_of_mapM hrest]
    | _ => cases hs

theorem load_of_texts? {text : String} {ss : List String} (h : (Yaml.load text).toOption.bind texts? = some ss) :
    Yaml.load text = .ok (.list (ss.map .text)) := by
  obtain ⟨d, hload, htexts⟩ := Option.bind_eq_some_iff.mp h
  rw [eq_ok_of_toOption hload]
  cases d with
  | list items => rw [map_text_of_mapM htexts]
  | _ => cases htexts

/-- A list where the options should be stops a rendering and a look-up of datasources. -/
theorem listed_configuration_refused :
    let s : Store := { items := .ofList [(["list.yaml"], .file "- a\n- b\n".toUTF8)] }
    s.read (.ofString "list.yaml") = .ok "- a\n- b\n" ∧
    Yaml.load "- a\n- b\n" = .ok (.list [.text "a", .text "b"]) ∧
    ∃ f words, f.words? = some words ∧
      run s ["render", "--in", "form.mdx", "--config", "list.yaml"] = .fail s f ∧
      run s ["datasource", "--config", "list.yaml", "--source", "/cities"] = .fail s f := by
  intro s
  have hread : s.read (.ofString "list.yaml") = .ok "- a\n- b\n" := eq_ok_of_toOption (by decide +kernel)
  have hload : Yaml.load "- a\n- b\n" = .ok (.list (["a", "b"].map .text)) := load_of_texts? (by decide +kernel)
  obtain ⟨hconfigures, -, hrefuses⟩ := configuration_of_document s hread hload
  obtain ⟨f, words, -, hwords, hrun⟩ := hrefuses fun c h => by
    rcases (hconfigures c).mp h with ⟨⟨⟩, -⟩ | ⟨⟨⟩⟩
  have hrender := read_spelled .render [.value "--in" "form.mdx", .value "--config" "list.yaml"]
    (by decide) (by decide)
  have hdatasource := read_spelled .datasource [.value "--config" "list.yaml", .value "--source" "/cities"]
    (by decide) (by decide)
  exact ⟨hread, hload, f, words, hwords, hrun _ _ _ hrender (by decide) rfl, hrun _ _ _ hdatasource (by decide) rfl⟩

/-- An empty list is no mapping and not null, and yet it configures: all options stay at their defaults. -/
theorem empty_list_configures :
    let s : Store := { items := .ofList [(["mdxform.yaml"], .file "[]\n".toUTF8)] }
    Yaml.load "[]\n" = .ok (.list []) ∧ s.loadConfig (.ofString "mdxform.yaml") = .ok {} := by
  intro s
  have hload : Yaml.load "[]\n" = .ok (.list (List.map .text [])) := load_of_texts? (by decide +kernel)
  exact ⟨hload, eq_ok_of_toOption (by decide +kernel)⟩

end Cli
end FormDirectives
