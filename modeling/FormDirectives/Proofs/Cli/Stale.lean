import FormDirectives.Proofs.Cli.Check
import FormDirectives.Proofs.Diff.Unified
import FormDirectives.Proofs.Files.Rendered

/-! Outputs that are not current. A check finds every difference between what an output holds and what its input
    compiles to, however the lines are cut and compared, and a command line that checks ends by what it finds. -/

namespace FormDirectives.Cli
open Files

/-- A check of an output that is a text file, or absent, returns something unless the output holds exactly what the
    input compiles to. On the command line this goes to the error stream and decides the status. -/
theorem check_finds_stale {s : Store} {input output : Path} {text : String} {config : Config} {c : Compiled}
    {stored : Option String} (hinput : s.readSource input = .ok text) (hcompile : compile config text = .ok c)
    (hstored : s.Stored output stored) :
    ∃ diff, s.checkRendered input output config = .ok diff ∧ (diff = "" ↔ stored = some (c.html ++ "\n")) ∧
      ∀ args a base path, read args = .ok (.render, a) → a.check = true → a.inputPath = input →
        nonempty? a.output = some path → .ofString path = output → a.StartsFrom s base →
        base.withFlags a.strict a.escape = config → (run s args).stderr = diff ∧
          (run s args).ending = .exit (if stored = some (c.html ++ "\n") then 0 else 1) := by
  have hfile : s.compileFile input config = .ok c := by
    rw [compileFile_eq hinput, hcompile]
    rfl
  obtain ⟨diff, hchecked, hexact⟩ : ∃ diff, s.checkRendered input output config = .ok diff ∧
      (diff = "" ↔ stored = some (c.html ++ "\n")) := by
    rcases Store.checkRendered_cases hfile hstored with ⟨hcurrent, hchecked⟩ | ⟨hstale, hdiffers, hchecked⟩
    · exact ⟨_, hchecked, iff_of_true rfl hcurrent⟩
    · exact ⟨_, hchecked, iff_of_false (Diff.unified_ne_empty hdiffers) hstale⟩
  refine ⟨diff, hchecked, hexact, fun args a base path hargs hcheck hpath houtput hplace hbase hconfig => ?_⟩
  subst hpath hplace hconfig
  rw [run_eq hargs, runCommand, runRender_of_check hcheck hbase]
  obtain ⟨hstderr, hending⟩ := checkOutput_of_checkRendered houtput hchecked
  refine ⟨hstderr, ?_⟩
  rw [hending]
  simp only [hexact]

def buttonHtml : String :=
  "<button type=\"submit\"\n        class=\"text-white bg-blue-700 hover:bg-blue-800 font-medium rounded-lg text-sm " ++
    "px-5 py-2.5\">\n  Go\n</button>"

/-- A form and its HTML, of which the line feed at the end was lost. -/
def trimmed : Store where
  items := .ofList [(["form.mdx"], .file "@submit label=\"Go\"\n".toUTF8), (["form.html"], .file buttonHtml.toUTF8)]

/-- The lost line feed is found, and so is the lack of the output. -/
theorem trimmed_output_stale :
    (∃ diff, trimmed.checkRendered (.ofString "form.mdx") (.ofString "form.html") {} = .ok diff ∧ diff ≠ "") ∧
    (run trimmed ["render", "--in", "form.mdx", "--out", "form.html", "--check"]).ending = .exit 1 ∧
    (run trimmed ["render", "--in", "form.mdx", "--out", "out/form.html", "--check"]).ending = .exit 1 := by
  have hinput : trimmed.readSource (.ofString "form.mdx") = .ok "@submit label=\"Go\"\n" :=
    eq_ok_of_toOption (by decide +kernel)
  obtain ⟨c, hcompile⟩ : ∃ c, compile {} "@submit label=\"Go\"\n" = .ok c := exists_compile_iff.mpr Bool.noConfusion
  have hhtml : (compile {} "@submit label=\"Go\"\n").map Compiled.html = .ok buttonHtml :=
    eq_ok_of_toOption (by decide +kernel)
  rw [hcompile] at hhtml
  have hhtml : c.html = buttonHtml := Except.ok.inj hhtml
  have hstored : trimmed.Stored (.ofString "form.html") (some buttonHtml) :=
    .present (eq_ok_of_toOption (by decide +kernel))
  have hstale : some buttonHtml ≠ some (c.html ++ "\n") := by
    rw [hhtml]
    decide
  have habsent : trimmed.Stored (.ofString "out/form.html") none := .absent (eq_ok_of_toOption (by decide +kernel))
  have hargs := read_spelled .render [.value "--in" "form.mdx", .value "--out" "form.html", .flag "--check"]
    (by decide) (by decide)
  have hargs' := read_spelled .render [.value "--in" "form.mdx", .value "--out" "out/form.html", .flag "--check"]
    (by decide) (by decide)
  obtain ⟨diff, hdiff, hexact, hcommand⟩ := check_finds_stale hinput hcompile hstored
  obtain ⟨_, -, -, hcommand'⟩ := check_finds_stale hinput hcompile habsent
  have hending := (hcommand _ _ {} _ hargs rfl rfl rfl rfl rfl rfl).2
  have hending' := (hcommand' _ _ {} _ hargs' rfl rfl rfl rfl rfl rfl).2
  rw [if_neg hstale] at hending
  rw [if_neg (Option.some_ne_none _).symm] at hending'
  exact ⟨⟨diff, hdiff, fun h => hstale (hexact.mp h)⟩, hending, hending'⟩

end FormDirectives.Cli
