import FormDirectives.Cli.Run
import FormDirectives.Proofs.Cli.Words
import FormDirectives.Proofs.Files.Writing
import FormDirectives.Proofs.Html.Composition

/-! The command that renders. Under the options of the configuration file, with the flags put on top, it does what
    compiling the text of its input says: a source that is refused is reported and nothing else happens, any other is
    written out as HTML with a line feed behind it, to the standard output or to a file, below its warnings. -/

namespace FormDirectives.Cli
open Files

/-- The options before the flags: those of the configuration file that is named, or else the defaults. -/
def Arguments.StartsFrom (a : Arguments) (s : Store) (base : Config) : Prop :=
  match nonempty? a.config with
  | some path => s.loadConfig (.ofString path) = .ok base
  | none => base = {}

section
variable {s : Store} {args : List String} {c : Command} {a : Arguments} {base config : Config} {text : String}

theorem run_eq (h : read args = .ok (c, a)) (s : Store) : run s args = runCommand s a c := by
  rw [run, h]

theorem resolveConfig_eq (h : a.StartsFrom s base) : resolveConfig s a = .ok (base.withFlags a.strict a.escape) := by
  unfold Arguments.StartsFrom at h
  unfold resolveConfig
  cases hpath : nonempty? a.config with
  | none =>
    rw [hpath] at h
    rw [h]
    rfl
  | some path =>
    rw [hpath] at h
    simp only at h
    simp only [h]
    rfl

theorem exists_of_resolveConfig (h : resolveConfig s a = .ok config) :
    ∃ base, a.StartsFrom s base ∧ base.withFlags a.strict a.escape = config := by
  unfold resolveConfig at h
  unfold Arguments.StartsFrom
  cases hpath : nonempty? a.config with
  | none =>
    rw [hpath] at h
    exact ⟨{}, rfl, Except.ok.inj h⟩
  | some path =>
    rw [hpath] at h
    simp only at h
    cases hload : s.loadConfig (.ofString path) with
    | error f =>
      rw [hload] at h
      cases h
    | ok base =>
      rw [hload] at h
      exact ⟨base, hload, Except.ok.inj h⟩

theorem compileFile_eq {input : Path} (h : s.readSource input = .ok text) (config : Config) :
    s.compileFile input config = (compile config text).mapError .unbalanced := by
  rw [Store.compileFile, h]
  rfl

end

/-! ### Writing out -/

section
variable {s t : Store} {a : Arguments} {c : Compiled} {output : String}

theorem writeOutput_of_none (h : nonempty? a.output = none) (s : Store) (c : Compiled) : writeOutput s a c =
    { store := s, stdout := Store.outputText c, stderr := lines (c.warnings.map Diagnostic.format) } := by
  rw [writeOutput, h]

theorem writeOutput_of_written (h : nonempty? a.output = some output)
    (hwrite : s.writeText (.ofString output) (Store.outputText c) = (t, .ok ())) : writeOutput s a c =
      { store := t, stdout := s!"Rendered {a.inputPath} to {output}.\n"
        stderr := lines (c.warnings.map Diagnostic.format) } := by
  rw [writeOutput, h]
  simp only [hwrite]

theorem writeOutput_of_failure {f : Failure} (h : nonempty? a.output = some output)
    (hwrite : s.writeText (.ofString output) (Store.outputText c) = (t, .error f)) : writeOutput s a c =
      { store := t, stderr := lines (c.warnings.map Diagnostic.format), ending := .failure f } := by
  rw [writeOutput, h]
  simp only [hwrite]

theorem writeText_cases (s : Store) (p : Path) (text : String) :
    (∃ t f, s.SameFiles t ∧ s.writeText p text = (t, .error f)) ∨
    ∃ t, s.Wrote t p text.toUTF8 ∧ s.writeText p text = (t, .ok ()) := by
  rcases s.write_cases p with ⟨t, e, hsame, hfails⟩ | hwrites
  · exact Or.inl ⟨t, .file e, hsame, by rw [Store.writeText, hfails text]⟩
  · obtain ⟨t, hwrote, hwrite⟩ := hwrites text
    exact Or.inr ⟨t, hwrote, by rw [Store.writeText, hwrite]⟩

theorem writeText_of_writable {p : Path} (h : s.Writable p) (text : String) :
    ∃ t, s.Wrote t p text.toUTF8 ∧ s.writeText p text = (t, .ok ()) := by
  obtain ⟨t, hwrote, hwrite⟩ := h.write text
  exact ⟨t, hwrote, by rw [Store.writeText, hwrite]⟩

theorem stderr_writeOutput (s : Store) (a : Arguments) (c : Compiled) :
    (writeOutput s a c).stderr = lines (c.warnings.map Diagnostic.format) := by
  unfold writeOutput
  split
  · rfl
  · split <;> rfl

end

/-! ### Rendering -/

section
variable {s : Store} {a : Arguments} {base : Config} {text : String}

theorem runRender_eq (hcheck : a.check = false) (hconfig : a.StartsFrom s base)
    (hinput : s.readSource a.inputPath = .ok text) : runRender s a =
      match compile (base.withFlags a.strict a.escape) text with
      | .error e => .fail s (.unbalanced e)
      | .ok c => writeOutput s a c := by
  rw [runRender, resolveConfig_eq hconfig]
  simp only [hcheck, Bool.false_eq_true, if_false, compileFile_eq hinput]
  cases compile (base.withFlags a.strict a.escape) text <;> rfl

theorem renderFile_eq {input output : Path} {config : Config} {c : Compiled} {t : Store}
    (hinput : s.readSource input = .ok text) (hcompile : compile config text = .ok c)
    (hwrite : s.writeText output (Store.outputText c) = (t, .ok ())) :
    s.renderFile input output config = (t, .ok c) := by
  have hfile : s.compileFile input config = .ok c := by
    rw [compileFile_eq hinput, hcompile]
    rfl
  rw [Store.renderFile, hfile]
  simp only [hwrite]

end

theorem compileHtml_of_compile {config : Config} {source : String} {c : Compiled} (h : compile config source = .ok c)
    (hescape : config.escape = false) : c.html = compileHtml source := by
  rw [compileHtml_eq, html_of_compile h, hescape]

/-! ### A store of forms -/

def signupForm : String := "@form action=\"/join\"\n@select source=\"/cities\"\n@endform"

/-- A form with a closer too many, and a directive behind it. -/
def tornForm : String := "@select source=\"/trees\"\n@select source=\"/cities\"\n@endform\n@submit"

def signupConfig : Config := { escape := true, datasources := .ofList [("/cities", ["Rome"])] }

def signup : Store where
  items := .ofList [(["form.mdx"], .file signupForm.toUTF8), (["torn.mdx"], .file tornForm.toUTF8),
    (["mdxform.yaml"], .file "escape: yes\ndatasources: \x7b/cities: [Rome]\x7d\n".toUTF8)]

theorem readSource_signupForm : signup.readSource (.ofString "form.mdx") = .ok signupForm :=
  eq_ok_of_toOption (by decide +kernel)

theorem readSource_tornForm : signup.readSource (.ofString "torn.mdx") = .ok tornForm :=
  eq_ok_of_toOption (by decide +kernel)

theorem loadConfig_signup : signup.loadConfig (.ofString "mdxform.yaml") = .ok signupConfig :=
  eq_ok_of_toOption (by decide +kernel)

/-! ### Refinement -/

/-- What the rendering of a text comes to on the command line, given what compiling the text gives. -/
structure Renders (s : Store) (a : Arguments) (config : Config) (text : String) (o : Outcome) : Prop where
  refused : ∀ e, compile config text = .error e → o.ending.status = 1 ∧ o.stdout = "" ∧
    o.errors = "Structural error: " ++ e.diagnostic.format ++ "\n" ∧ o.store = s
  warned : ∀ c, compile config text = .ok c →
    o.stderr = lines ((c.diagnostics.filter fun d => d.issue.severity = .warning).map Diagnostic.format)
  printed : ∀ c, compile config text = .ok c → nonempty? a.output = none →
    o.ending = .exit 0 ∧ o.stdout = c.html ++ "\n" ∧ o.store = s
  /-- What is written is also what rendering to the file writes without a command line. -/
  written : ∀ c, compile config text = .ok c → ∀ output, nonempty? a.output = some output →
    s.Writable (.ofString output) → o.ending = .exit 0 ∧
      Store.Wrote s o.store (.ofString output) (c.html ++ "\n").toUTF8 ∧
      s.renderFile a.inputPath (.ofString output) config = (o.store, .ok c)
  verbatim : ∀ c, compile config text = .ok c → config.escape = false → c.html = compileHtml text

/-- On a source that can be read, under valid options, a command line that renders does what compiling the source
    under these options says. -/
theorem rendering_refines_compilation {s : Store} {args : List String} {a : Arguments} {base : Config} {text : String}
    (hargs : read args = .ok (.render, a)) (hcheck : a.check = false) (hconfig : a.StartsFrom s base)
    (hinput : s.readSource a.inputPath = .ok text) :
    Renders s a { base with strict := base.strict || a.strict, escape := base.escape || a.escape } text
      (run s args) := by
  have hrun := (run_eq hargs s).trans (runRender_eq hcheck hconfig hinput)
  have herror {e : StructureError} (he : compile (base.withFlags a.strict a.escape) text = .error e) :
      run s args = .fail s (.unbalanced e) := by rw [hrun, he]
  have hok {c : Compiled} (hc : compile (base.withFlags a.strict a.escape) text = .ok c) :
      run s args = writeOutput s a c := by rw [hrun, hc]
  refine ⟨fun e he => ?_, fun c hc => ?_, fun c hc hnone => ?_, fun c hc output houtput hwritable => ?_, fun c hc =>
    compileHtml_of_compile hc⟩
  · rw [herror he]
    exact ⟨rfl, rfl, rfl, rfl⟩
  · rw [hok hc]
    exact stderr_writeOutput s a c
  · rw [hok hc, writeOutput_of_none hnone]
    exact ⟨rfl, rfl, rfl⟩
  · obtain ⟨t, hwrote, hwrite⟩ := writeText_of_writable hwritable (Store.outputText c)
    rw [hok hc, writeOutput_of_written houtput hwrite]
    exact ⟨rfl, hwrote, renderFile_eq hinput hc hwrite⟩

/-- A torn form is written below a new directory, with a word on what it drops. -/
theorem torn_form_rendered : ∃ (c : Compiled) (o : Outcome),
    run signup ["render", "--in", "torn.mdx", "--config", "mdxform.yaml", "--out", "out/form.html"] = o ∧
    o.ending = .exit 0 ∧ signup.Wrote o.store (.ofString "out/form.html") (c.html ++ "\n").toUTF8 ∧
    o.stderr = "line 3: [UnmatchedClose] @endform has no open container; it closes the root\n" ++
      "line 4: [DetachedDirective] @submit follows the close of the root and is dropped\n" := by
  have hargs := read_spelled .render [.value "--in" "torn.mdx", .value "--config" "mdxform.yaml",
    .value "--out" "out/form.html"] (by decide) (by decide)
  have hwritable : signup.Writable (.ofString "out/form.html") := ⟨"", by decide +kernel⟩
  have hrenders := rendering_refines_compilation hargs rfl loadConfig_signup readSource_tornForm
  obtain ⟨c, hc⟩ : ∃ c, compile signupConfig tornForm = .ok c := exists_compile_iff.mpr Bool.noConfusion
  have hwarnings : (compile signupConfig tornForm).map (fun c => lines (c.warnings.map Diagnostic.format)) = .ok
      ("line 3: [UnmatchedClose] @endform has no open container; it closes the root\n" ++
        "line 4: [DetachedDirective] @submit follows the close of the root and is dropped\n") :=
    eq_ok_of_toOption (by decide +kernel)
  rw [hc] at hwarnings
  obtain ⟨hending, hwrote, -⟩ := hrenders.written c hc "out/form.html" rfl hwritable
  exact ⟨c, _, rfl, hending, hwrote, (hrenders.warned c hc).trans (Except.ok.inj hwarnings)⟩

end FormDirectives.Cli
