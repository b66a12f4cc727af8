import FormDirectives.Proofs.Cli.Added
import FormDirectives.Proofs.Cli.Changes
import FormDirectives.Proofs.Cli.Check
import FormDirectives.Proofs.Files.Rendered

/-! Rendering and checking one after the other. A rendering to an output that is neither its input nor its configuration
    leaves both as they were, so a check that comes next compares the output with what was written to it and finds it
    current, and rendering again writes the same once more. -/

namespace FormDirectives.Cli
open Files

section
variable {s t : Store} {a : Arguments} {base : Config} {c : Compiled} {output text : String} {p q : Path}

theorem loadConfig_of_read (h : s.read p = .ok text) : s.loadConfig p = Store.configOfText p text := by
  rw [Store.loadConfig, Store.readFile_eq_ok.mpr h]
  rfl

theorem exists_read_of_loadConfig {config : Config} (h : s.loadConfig p = .ok config) :
    ∃ text, s.read p = .ok text := by
  cases hread : s.readFile p (.missingConfig p) with
  | ok text => exact ⟨text, Store.readFile_eq_ok.mp hread⟩
  | error f =>
    rw [Store.loadConfig, hread] at h
    cases h

theorem startsFrom_of_write (h : a.StartsFrom s base) (hwrite : s.write q text = (t, none))
    (hother : ∀ path, nonempty? a.config = some path → t.place q ≠ t.place (.ofString path)) : a.StartsFrom t base := by
  unfold Arguments.StartsFrom at h ⊢
  cases hpath : nonempty? a.config with
  | none =>
    rw [hpath] at h
    exact h
  | some path =>
    rw [hpath] at h
    simp only at h ⊢
    obtain ⟨source, hread⟩ := exists_read_of_loadConfig h
    have hread' := Store.read_of_write hwrite hread (hother path hpath)
    rw [loadConfig_of_read hread', ← loadConfig_of_read hread, h]

/-- A rendering to an output that ends well has compiled its input and written the output. -/
theorem write_of_runRender (hcheck : a.check = false) (houtput : nonempty? a.output = some output)
    (hending : (runRender s a).ending = .exit 0) : ∃ base c, a.StartsFrom s base ∧
      s.compileFile a.inputPath (base.withFlags a.strict a.escape) = .ok c ∧
      s.write (.ofString output) (Store.outputText c) = ((runRender s a).store, none) := by
  rcases runRender_cases s a with ⟨hcheck', -⟩ | ⟨f, hfail⟩ | ⟨-, base, c, hbase, hcompile, hrun⟩
  · exact absurd (hcheck.symm.trans hcheck') (by decide)
  · rw [hfail] at hending
    cases hending
  · refine ⟨base, c, hbase, hcompile, ?_⟩
    rw [hrun] at hending ⊢
    rcases hwrite : s.writeText (.ofString output) (Store.outputText c) with ⟨t, f | ⟨⟩⟩
    · rw [writeOutput_of_failure houtput hwrite] at hending
      cases hending
    · rw [writeOutput_of_written houtput hwrite]
      exact Store.writeText_eq_ok.mp hwrite

theorem runRender_of_compileFile (hcheck : a.check = false) (hconfig : a.StartsFrom s base)
    (hcompile : s.compileFile a.inputPath (base.withFlags a.strict a.escape) = .ok c) :
    runRender s a = writeOutput s a c := by
  rw [runRender, resolveConfig_eq hconfig]
  simp only [hcheck, Bool.false_eq_true, if_false, hcompile]

theorem writeOutput_again (houtput : nonempty? a.output = some output)
    (hwrite : s.write (.ofString output) (Store.outputText c) = (t, none)) :
    (writeOutput t a c).ending = .exit 0 ∧ t.SameFiles (writeOutput t a c).store := by
  obtain ⟨u, -, hagain⟩ := (Store.writable_of_write hwrite).write (Store.outputText c)
  rw [writeOutput_of_written houtput (Store.writeText_eq_ok.mpr hagain)]
  exact ⟨rfl, Store.sameFiles_of_write_again hwrite hagain⟩

end

/-- An output that a rendering writes is current as long as it is neither the input nor the configuration. A check of it
    has nothing to report, on the command line as in the library, and rendering to it again leaves all files as they
    are. The command line of the check is the one of the rendering with `--check` behind its first word, or any other that
    is read like it. -/
theorem rendered_output_current :
    (∀ (s t : Store) (input output : Path) (config : Config) (c : Compiled),
      s.renderFile input output config = (t, .ok c) → t.place output ≠ t.place input →
      t.checkRendered input output config = .ok "") ∧
    ∀ (s t : Store) (args : List String) (a : Arguments) (output : String), read args = .ok (.render, a) →
      a.check = false → nonempty? a.output = some output → (run s args).ending = .exit 0 → (run s args).store = t →
      t.place (.ofString output) ≠ t.place a.inputPath →
      (∀ path, nonempty? a.config = some path → t.place (.ofString output) ≠ t.place (.ofString path)) →
      (∃ words, args = "render" :: words ∧
        read ("render" :: "--check" :: words) = .ok (.render, { a with check := true })) ∧
      (∀ args', read args' = .ok (.render, { a with check := true }) → (run t args').ending = .exit 0) ∧
      (run t args).ending = .exit 0 ∧ t.SameFiles (run t args).store := by
  refine ⟨fun s t input output config c hrender hother => ?_, fun s t args a output hargs hcheck houtput hending hstore
    hinput hconfig => ?_⟩
  · obtain ⟨hcompile, hwrite⟩ := Store.write_of_renderFile hrender
    exact (Store.checkRendered_of_written hcompile hwrite hother).2
  · subst hstore
    obtain ⟨words, -, -, rfl, -⟩ := read_cases hargs
    have hflag : "--check" ∈ Command.render.flags := by decide
    have hadded := read_flag hflag hargs
    refine ⟨⟨words, rfl, hadded⟩, ?_⟩
    rw [run_eq hargs, runCommand] at hending hinput hconfig ⊢
    obtain ⟨base, c, hbase, hcompile, hwrite⟩ := write_of_runRender hcheck houtput hending
    obtain ⟨hcompile', hcurrent⟩ := Store.checkRendered_of_written hcompile hwrite hinput
    have hbase' := startsFrom_of_write hbase hwrite hconfig
    refine ⟨fun args' hargs' => ?_, ?_⟩
    · have hchecked : Arguments.StartsFrom { a with check := true } (runRender s a).store base := hbase'
      rw [run_eq hargs', runCommand, runRender_of_check rfl hchecked]
      exact (checkOutput_of_checkRendered (a := { a with check := true }) houtput hcurrent).2
    · rw [run_eq hargs, runCommand, runRender_of_compileFile hcheck hbase' hcompile']
      exact writeOutput_again houtput hwrite

/-- A form whose lines end in carriage returns, one of them in a label. -/
def returns : Store where
  items := .ofList [(["form.mdx"], .file "@form action=\"/join\"\r\n@submit label=\"Send\rit\"\r@endform\r\n".toUTF8),
    (["mdxform.yaml"], .file "escape: yes\r\n".toUTF8)]

/-- A form with carriage returns is rendered below a new directory and checked there under the same options. -/
theorem returns_output_current :
    (returns.renderFile (.ofString "form.mdx") (.ofString "form.html") {}).1.checkRendered (.ofString "form.mdx")
      (.ofString "form.html") {} = .ok "" ∧
    (run returns ["render", "--in", "form.mdx", "--config", "mdxform.yaml", "--out", "out/form.html"]).ending =
      .exit 0 ∧
    (run (run returns ["render", "--in", "form.mdx", "--config", "mdxform.yaml", "--out", "out/form.html"]).store
      ["render", "--in", "form.mdx", "--config", "mdxform.yaml", "--out", "out/form.html", "--check"]).ending =
      .exit 0 := by
  obtain ⟨hlibrary, hcommand⟩ := rendered_output_current
  have hargs := read_spelled .render [.value "--in" "form.mdx", .value "--config" "mdxform.yaml",
    .value "--out" "out/form.html"] (by decide) (by decide)
  have hchecks := read_spelled .render [.value "--in" "form.mdx", .value "--config" "mdxform.yaml",
    .value "--out" "out/form.html", .flag "--check"] (by decide) (by decide)
  have hending : (run returns ["render", "--in", "form.mdx", "--config", "mdxform.yaml", "--out",
    "out/form.html"]).ending = .exit 0 := by decide +kernel
  obtain ⟨-, hcurrent, -⟩ := hcommand returns _ _ _ "out/form.html" hargs rfl rfl hending rfl (by decide +kernel)
    (by rintro path ⟨⟩; decide +kernel)
  refine ⟨?_, hending, hcurrent _ hchecks⟩
  obtain ⟨c, hc⟩ : ∃ c, (returns.renderFile (.ofString "form.mdx") (.ofString "form.html") {}).2 = .ok c := by
    have hsome : (returns.renderFile (.ofString "form.mdx") (.ofString "form.html") {}).2.toOption.isSome := by
      decide +kernel
    obtain ⟨c, hc⟩ := Option.isSome_iff_exists.mp hsome
    exact ⟨c, eq_ok_of_toOption hc⟩
  exact hlibrary returns _ _ _ {} c (Prod.ext rfl hc) (by decide +kernel)

end FormDirectives.Cli
