import FormDirectives.Proofs.Build.WellFormed
import FormDirectives.Proofs.Cli.Render
import FormDirectives.Proofs.Cli.Words

/-! The command that checks. Its status says whether the source is well formed, whatever the options are, and on a
    well-formed source rendering has nothing to warn of, nor anything to refuse. -/

namespace FormDirectives.Cli
open Files

section
variable {s : Store} {a : Arguments} {base : Config} {text : String} {input output : Path} {config config' : Config}

theorem runCheck_eq (hconfig : a.StartsFrom s base) (hinput : s.readSource a.inputPath = .ok text) : runCheck s a =
    match compile (base.withFlags a.strict a.escape) text with
    | .error e => .fail s (.unbalanced e)
    | .ok c =>
      let found := lines (c.diagnostics.map fun d => s!"{a.inputPath}: {d.format}")
      if hasWarnings c.diagnostics then { store := s, stdout := found, ending := .exit 1 }
      else .print s (found ++ s!"No structural problems found in {a.inputPath}.\n") := by
  rw [runCheck, resolveConfig_eq hconfig]
  simp only [bind, Except.bind, compileFile_eq hinput]
  cases compile (base.withFlags a.strict a.escape) text <;> rfl

/-- A source that is refused and one that is warned of end the check with the same status. -/
theorem status_runCheck (hconfig : a.StartsFrom s base) (hinput : s.readSource a.inputPath = .ok text) :
    WellFormed text ∧ (runCheck s a).ending.status = 0 ∨ ¬ WellFormed text ∧ (runCheck s a).ending.status = 1 := by
  rw [runCheck_eq hconfig hinput]
  cases hcompile : compile (base.withFlags a.strict a.escape) text with
  | error e => exact Or.inr ⟨not_wellFormed_of_error hcompile, rfl⟩
  | ok c =>
    rw [← hasWarnings_of_compile hcompile]
    cases hwarnings : hasWarnings c.diagnostics with
    | false =>
      simp only [hwarnings]
      exact Or.inl ⟨trivial, rfl⟩
    | true =>
      simp only [hwarnings]
      exact Or.inr ⟨Bool.noConfusion, rfl⟩

/-! ### Rendering what is well formed -/

theorem checkRendered_congr (h : s.compileFile input config = s.compileFile input config') (output : Path) :
    s.checkRendered input output config = s.checkRendered input output config' := by
  rw [Store.checkRendered, h, Store.checkRendered]

theorem checkOutput_congr (h : s.compileFile a.inputPath config = s.compileFile a.inputPath config') :
    checkOutput s a config = checkOutput s a config' := by
  unfold checkOutput
  simp only [checkRendered_congr h]

theorem ending_writeOutput (s : Store) (a : Arguments) (c : Compiled) (e : StructureError) :
    (writeOutput s a c).ending ≠ .failure (.unbalanced e) := by
  unfold writeOutput
  split
  · exact fun h => by cases h
  · next output _ =>
    rw [Store.writeText]
    rcases s.write (.ofString output) (Store.outputText c) with ⟨t, _ | f⟩ <;> exact fun h => by cases h

theorem runRender_of_check (hcheck : a.check = true) (hconfig : a.StartsFrom s base) :
    runRender s a = checkOutput s a (base.withFlags a.strict a.escape) := by
  rw [runRender, resolveConfig_eq hconfig]
  simp only [hcheck, if_true]

/-- What a check of an output finds is what it prints to the error stream, and its status is zero if that is nothing. -/
theorem checkOutput_of_checkRendered {path diff : String} (houtput : nonempty? a.output = some path)
    (h : s.checkRendered a.inputPath (.ofString path) config = .ok diff) :
    (checkOutput s a config).stderr = diff ∧ (checkOutput s a config).ending = .exit (if diff = "" then 0 else 1) := by
  rw [checkOutput, houtput]
  simp only [h]
  split
  · next hempty => exact ⟨hempty.symm, rfl⟩
  · exact ⟨rfl, rfl⟩

theorem runRender_strict (htext : WellFormed text) (hconfig : a.StartsFrom s base)
    (hinput : s.readSource a.inputPath = .ok text) (strict : Bool) : runRender s { a with strict } = runRender s a := by
  have hconfig' : Arguments.StartsFrom { a with strict } s base := hconfig
  by_cases hcheck : a.check = true
  · have hfile : s.compileFile a.inputPath (base.withFlags strict a.escape) =
        s.compileFile a.inputPath (base.withFlags a.strict a.escape) := by
      rw [compileFile_eq hinput, compileFile_eq hinput, htext.compile_eq, htext.compile_eq]
      rfl
    calc runRender s { a with strict }
      _ = checkOutput s { a with strict } (base.withFlags strict a.escape) := runRender_of_check hcheck hconfig'
      _ = checkOutput s a (base.withFlags strict a.escape) := rfl
      _ = checkOutput s a (base.withFlags a.strict a.escape) := checkOutput_congr hfile
      _ = runRender s a := (runRender_of_check hcheck hconfig).symm
  · rw [Bool.not_eq_true] at hcheck
    rw [runRender_eq hcheck hconfig hinput, runRender_eq (a := { a with strict }) hcheck hconfig' hinput,
      htext.compile_eq, htext.compile_eq]
    rfl

end

/-- The status of a check says whether the source is well formed, whatever the options. What is well formed is rendered
    without a word on the source, and the same whether or not structural issues are refused. -/
theorem check_decides_wellFormed {s : Store} {input : Path} {text : String} (hinput : s.readSource input = .ok text) :
    (∀ args a base, read args = .ok (.check, a) → a.inputPath = input → a.StartsFrom s base →
      WellFormed text ∧ (run s args).ending.status = 0 ∨ ¬ WellFormed text ∧ (run s args).ending.status = 1) ∧
    (WellFormed text → ∀ args a base, read args = .ok (.render, a) → a.inputPath = input → a.StartsFrom s base →
      (a.check = false → (run s args).stderr = "" ∧ ∀ e, (run s args).ending ≠ .failure (.unbalanced e)) ∧
      ∀ args' strict, read args' = .ok (.render, { a with strict }) → run s args' = run s args) := by
  refine ⟨fun args a base hargs hpath hconfig => ?_, fun htext args a base hargs hpath hconfig => ⟨fun hcheck => ?_,
    fun args' strict hargs' => ?_⟩⟩
  · subst hpath
    rw [run_eq hargs]
    exact status_runCheck hconfig hinput
  · subst hpath
    have hcompile := htext.compile_eq (base.withFlags a.strict a.escape)
    rw [run_eq hargs, runCommand, runRender_eq hcheck hconfig hinput, hcompile]
    refine ⟨?_, ending_writeOutput s a _⟩
    rw [stderr_writeOutput, htext.warnings_eq_nil hcompile]
    rfl
  · subst hpath
    rw [run_eq hargs, run_eq hargs']
    exact runRender_strict htext hconfig hinput strict

/-- A form is checked under options of its own and rendered with and without the flag; a torn one is found out with
    the flag too. -/
theorem signup_checked :
    (run signup ["check", "--in", "form.mdx", "--config", "mdxform.yaml"]).ending.status = 0 ∧
    (run signup ["render", "--in", "form.mdx"]).stderr = "" ∧
    run signup ["render", "--in", "form.mdx", "--strict"] = run signup ["render", "--in", "form.mdx"] ∧
    (run signup ["check", "--in", "torn.mdx", "--strict"]).ending.status = 1 := by
  have hcheck := read_spelled .check [.value "--in" "form.mdx", .value "--config" "mdxform.yaml"]
    (by decide) (by decide)
  have hlenient := read_spelled .render [.value "--in" "form.mdx"] (by decide) (by decide)
  have hstrict := read_spelled .render [.value "--in" "form.mdx", .flag "--strict"] (by decide) (by decide)
  have htorn := read_spelled .check [.value "--in" "torn.mdx", .flag "--strict"] (by decide) (by decide)
  have hform : WellFormed signupForm := by decide +kernel
  have hnot : ¬ WellFormed tornForm := by decide +kernel
  obtain ⟨hstatus, hrenders⟩ := check_decides_wellFormed readSource_signupForm
  obtain ⟨hquiet, hsame⟩ := hrenders hform _ _ {} hlenient rfl rfl
  obtain ⟨hstatus', -⟩ := check_decides_wellFormed readSource_tornForm
  refine ⟨?_, (hquiet rfl).1, hsame _ true hstrict, ?_⟩
  · exact ((hstatus _ _ _ hcheck rfl loadConfig_signup).resolve_right fun h => h.1 hform).2
  · exact ((hstatus' _ _ {} htorn rfl rfl).resolve_left fun h => hnot h.1).2

end FormDirectives.Cli
