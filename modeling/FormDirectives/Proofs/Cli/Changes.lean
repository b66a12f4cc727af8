import FormDirectives.Proofs.Cli.Render

/-! What a command line changes. Every command but the one that renders leaves the store as it finds it, and so does
    rendering unless it has an output to write to. Then directories may be made above the output, but no regular file
    is touched other than the output, and that one only if the command ends well.

    Two things are taken for granted of what is outside the store: a file that can be opened for writing takes all that
    is written to it, so no write fails midway and leaves a part; and the standard output takes every text, so a
    command does not fail at its last words, when the output is written already. -/

namespace FormDirectives.Cli
open Files
variable {s : Store} {args : List String} {a : Arguments} {output : String}

/-! ### Commands that leave the store alone -/

theorem store_checkOutput (s : Store) (a : Arguments) (config : Config) : (checkOutput s a config).store = s := by
  unfold checkOutput
  split
  · rfl
  · split
    · rfl
    · split <;> rfl

theorem store_verifySources (s : Store) (a : Arguments) (r : Registry) : (verifySources s a r).store = s := by
  unfold verifySources
  split
  · rfl
  · split
    · rfl
    · dsimp only
      split <;> rfl

theorem store_printOptions (s : Store) (a : Arguments) (config : Config) : (printOptions s a config).store = s := by
  unfold printOptions
  split <;> rfl

theorem store_runCheck (s : Store) (a : Arguments) : (runCheck s a).store = s := by
  unfold runCheck
  split
  · rfl
  · dsimp only
    split <;> rfl

theorem store_runTokens (s : Store) (a : Arguments) : (runTokens s a).store = s := by
  unfold runTokens
  split
  · rfl
  · split <;> rfl

theorem store_runAst (s : Store) (a : Arguments) : (runAst s a).store = s := by
  unfold runAst
  split
  · rfl
  · split
    · rfl
    · split <;> rfl

theorem store_runDatasource (s : Store) (a : Arguments) : (runDatasource s a).store = s := by
  unfold runDatasource
  split
  · rfl
  · split
    · exact store_verifySources s a _
    · exact store_printOptions s a _

theorem store_runCommand {c : Command} (h : c ≠ .render) (s : Store) (a : Arguments) :
    (runCommand s a c).store = s := by
  cases c with
  | render => exact absurd rfl h
  | check => exact store_runCheck s a
  | tokens => exact store_runTokens s a
  | ast => exact store_runAst s a
  | datasource => exact store_runDatasource s a

theorem store_stopped (s : Store) (stop : Stop) : (stopped s stop).store = s := by
  cases stop <;> rfl

/-! ### Rendering -/

/-- A rendering compares what is stored, or fails before it writes, or writes out what it compiled. -/
theorem runRender_cases (s : Store) (a : Arguments) : (a.check = true ∧ (runRender s a).store = s) ∨
    (∃ f, runRender s a = .fail s f) ∨
    a.check = false ∧ ∃ base c, a.StartsFrom s base ∧
      s.compileFile a.inputPath (base.withFlags a.strict a.escape) = .ok c ∧ runRender s a = writeOutput s a c := by
  unfold runRender
  cases hconfig : resolveConfig s a with
  | error f => exact Or.inr (Or.inl ⟨f, rfl⟩)
  | ok config =>
    cases hcheck : a.check with
    | true => exact Or.inl ⟨rfl, store_checkOutput s a config⟩
    | false =>
      obtain ⟨base, hbase, rfl⟩ := exists_of_resolveConfig hconfig
      simp only [Bool.false_eq_true, if_false]
      cases hcompile : s.compileFile a.inputPath (base.withFlags a.strict a.escape) with
      | error f => exact Or.inr (Or.inl ⟨f, rfl⟩)
      | ok c => exact Or.inr (Or.inr ⟨trivial, base, c, hbase, hcompile, rfl⟩)

/-- The output holds what the input compiles to, and all other regular files are as they were. -/
def WroteOutput (s : Store) (a : Arguments) (output : String) (t : Store) : Prop :=
  ∃ base c, a.StartsFrom s base ∧ s.compileFile a.inputPath (base.withFlags a.strict a.escape) = .ok c ∧
    s.Wrote t (.ofString output) (c.html ++ "\n").toUTF8

theorem runRender_changes (s : Store) (a : Arguments) :
    (a.check = true ∨ nonempty? a.output = none → (runRender s a).store = s) ∧
    ((runRender s a).ending ≠ .exit 0 → s.SameFiles (runRender s a).store) ∧
    ∀ output, a.check = false → nonempty? a.output = some output → (runRender s a).ending = .exit 0 →
      WroteOutput s a output (runRender s a).store := by
  rcases runRender_cases s a with ⟨hcheck, hstore⟩ | ⟨f, hfail⟩ | ⟨hcheck, base, c, hbase, hcompile, hrun⟩
  · rw [hstore]
    refine ⟨fun _ => rfl, fun _ => .refl s, fun output hwrites => ?_⟩
    rw [hcheck] at hwrites
    cases hwrites
  · rw [hfail]
    exact ⟨fun _ => rfl, fun _ => .refl s, fun _ _ _ hending => by cases hending⟩
  · rw [hrun]
    cases houtput : nonempty? a.output with
    | none =>
      rw [writeOutput_of_none houtput]
      exact ⟨fun _ => rfl, fun _ => .refl s, fun _ _ h => by cases h⟩
    | some output =>
      have hwrites : ¬ (a.check = true ∨ some output = none) := by simp [hcheck]
      rcases writeText_cases s (.ofString output) (Store.outputText c) with ⟨t, f, hsame, hwrite⟩ | ⟨t, hwrote, hwrite⟩
      · rw [writeOutput_of_failure houtput hwrite]
        exact ⟨fun h => absurd h hwrites, fun _ => hsame, fun _ _ _ hending => by cases hending⟩
      · rw [writeOutput_of_written houtput hwrite]
        refine ⟨fun h => absurd h hwrites, fun hending => absurd rfl hending, fun output' _ houtput' _ => ?_⟩
        cases houtput'
        exact ⟨base, c, hbase, hcompile, hwrote⟩

/-- Whatever the command line, a run that does not end well leaves all regular files as they are, and one that does
    leaves them so unless it renders to an output; then it writes what the input compiles to, and to the output only.
    No other run changes anything at all. -/
theorem only_rendering_writes (s : Store) (args : List String) :
    (∀ stop, read args = .error stop → (run s args).store = s) ∧
    (∀ c a, read args = .ok (c, a) → c ≠ .render ∨ a.check = true ∨ nonempty? a.output = none →
      (run s args).store = s) ∧
    ((run s args).ending ≠ .exit 0 → s.SameFiles (run s args).store) ∧
    ∀ a output, read args = .ok (.render, a) → a.check = false → nonempty? a.output = some output →
      (run s args).ending = .exit 0 → WroteOutput s a output (run s args).store := by
  cases hread : read args with
  | error stop =>
    have hstore : (run s args).store = s := by
      rw [run, hread]
      exact store_stopped s stop
    rw [hstore]
    exact ⟨fun _ _ => rfl, fun _ _ h => (by cases h), fun _ => .refl s, fun _ _ h => by cases h⟩
  | ok command =>
    obtain ⟨c, a⟩ := command
    rw [run_eq hread]
    by_cases hc : c = .render
    · subst hc
      obtain ⟨hleft, hfailed, hwritten⟩ := runRender_changes s a
      refine ⟨fun _ h => (by cases h), fun c' a' heq h => ?_, hfailed, fun a' output heq => ?_⟩
      · cases heq
        exact hleft (h.resolve_left fun hne => hne rfl)
      · cases heq
        exact hwritten output
    · rw [store_runCommand hc]
      refine ⟨fun _ h => (by cases h), fun _ _ _ _ => rfl, fun _ => .refl s, fun a' output heq => ?_⟩
      cases heq
      exact absurd rfl hc

/-- A form is written below a new directory and cannot be written below a file; a check that fails changes nothing. -/
theorem output_below_new_directory :
    WroteOutput signup { input := some "form.mdx", output := some "out/form.html" } "out/form.html"
      (run signup ["render", "--in", "form.mdx", "--out", "out/form.html"]).store ∧
    signup.SameFiles (run signup ["render", "--in", "form.mdx", "--out", "form.mdx/form.html"]).store ∧
    (run signup ["check", "--in", "torn.mdx"]).store = signup := by
  have hmade := read_spelled .render [.value "--in" "form.mdx", .value "--out" "out/form.html"]
    (by decide) (by decide)
  have hcheck := read_spelled .check [.value "--in" "torn.mdx"] (by decide) (by decide)
  obtain ⟨-, -, -, hwrites⟩ := only_rendering_writes signup ["render", "--in", "form.mdx", "--out", "out/form.html"]
  obtain ⟨-, -, hfails, -⟩ := only_rendering_writes signup ["render", "--in", "form.mdx", "--out", "form.mdx/form.html"]
  obtain ⟨-, hleaves, -⟩ := only_rendering_writes signup ["check", "--in", "torn.mdx"]
  exact ⟨hwrites _ _ hmade rfl rfl (by decide +kernel), hfails (by decide +kernel), hleaves _ _ hcheck (Or.inl nofun)⟩

end FormDirectives.Cli
