import FormDirectives.Project
import FormDirectives.Proofs.Files.Reading
import FormDirectives.Proofs.Html.Characters

/-! Rendered outputs. A check compares the text that an output holds with what the input compiles to, and what it
    returns is empty if they are the same. A rendering writes what its input compiles to. No carriage return gets into
    the HTML of a file, so the output is read as it was written, and if the input is another file, a check that comes
    next finds nothing to change. -/

namespace FormDirectives.Files.Store
variable {s t : Store} {input output p : Path} {config : Config} {c : Compiled} {text : String} {missing : Failure}

/-- What an output holds: the text of the file that its path leads to, or nothing if nothing stands there. -/
inductive Stored (s : Store) (output : Path) : Option String → Prop
  | absent (h : s.lookup output = .ok none) : Stored s output none
  | present {text : String} (h : s.read output = .ok text) : Stored s output (some text)

/-! ### Reading and compiling -/

theorem lookup_of_read (h : s.read p = .ok text) : ∃ content, s.lookup p = .ok (some (.file content)) := by
  obtain ⟨here, content, -, hplace, hcontent, -⟩ := read_eq_ok.mp h
  refine ⟨content, ?_⟩
  rw [lookup, hplace]
  unfold content? at hcontent
  split at hcontent
  · next hitem =>
    cases hcontent
    exact congrArg Except.ok hitem
  · cases hcontent

theorem readFile_eq_ok : s.readFile p missing = .ok text ↔ s.read p = .ok text := by
  refine ⟨fun h => ?_, fun h => ?_⟩
  · cases hlookup : s.lookup p with
    | error e =>
      rw [readFile, hlookup] at h
      cases h
    | ok item =>
      rw [readFile, hlookup] at h
      cases hread : s.read p with
      | ok source =>
        rcases item with _ | _ | content
        · cases h
        · cases h
        · rw [hread] at h
          exact congrArg Except.ok (Except.ok.inj h)
      | error e =>
        rcases item with _ | _ | content
        · cases h
        · cases h
        · rw [hread] at h
          cases h
  · obtain ⟨content, hlookup⟩ := lookup_of_read h
    rw [readFile, hlookup, h]
    rfl

theorem compileFile_eq_ok : s.compileFile input config = .ok c ↔
    ∃ text, s.read input = .ok text ∧ compile config text = .ok c := by
  have hfile (text : String) : s.readFile input (.missingInput input) = .ok text ↔ s.read input = .ok text :=
    readFile_eq_ok
  simp only [← hfile]
  unfold compileFile readSource
  cases hread : s.readFile input (.missingInput input) with
  | error f => simp [bind, Except.bind]
  | ok text =>
    cases hcompile : compile config text with
    | error e => simp [bind, Except.bind, hcompile, Except.mapError]
    | ok c' => simp [bind, Except.bind, hcompile, Except.mapError]

/-! ### Checking -/

theorem outputText_ne_empty (c : Compiled) : outputText c ≠ "" := fun h =>
  absurd (String.append_eq_empty_iff.mp h).2 (by decide)

theorem checkRendered_eq {stored : Option String} (hcompile : s.compileFile input config = .ok c)
    (hstored : s.Stored output stored) : s.checkRendered input output config =
      .ok (if stored = some (outputText c) then "" else
        Diff.unified s!"current/{output.name}" s!"rendered/{output.name}" (stored.getD "") (outputText c)) := by
  rw [checkRendered, hcompile]
  cases hstored with
  | absent h =>
    simp only [bind, Except.bind, h, Except.mapError, if_neg (outputText_ne_empty c).symm, reduceCtorEq, if_false]
    rfl
  | present h =>
    obtain ⟨content, hlookup⟩ := lookup_of_read h
    simp only [bind, Except.bind, hlookup, h, Except.mapError, Option.some.injEq, Option.getD_some]
    split <;> rfl

/-- A check finds the output current, or compares two texts that differ; an absent output counts as an empty one. -/
theorem checkRendered_cases {stored : Option String} (hcompile : s.compileFile input config = .ok c)
    (hstored : s.Stored output stored) :
    (stored = some (outputText c) ∧ s.checkRendered input output config = .ok "") ∨
    stored ≠ some (outputText c) ∧ stored.getD "" ≠ outputText c ∧ s.checkRendered input output config =
      .ok (Diff.unified s!"current/{output.name}" s!"rendered/{output.name}" (stored.getD "") (outputText c)) := by
  rw [checkRendered_eq hcompile hstored]
  by_cases h : stored = some (outputText c)
  · exact Or.inl ⟨h, by rw [if_pos h]⟩
  · refine Or.inr ⟨h, ?_, by rw [if_neg h]⟩
    cases stored with
    | none => exact (outputText_ne_empty c).symm
    | some text => exact fun heq => h (congrArg some heq)

/-! ### Rendering -/

theorem return_notMem_outputText (h : s.compileFile input config = .ok c) : '\r' ∉ (outputText c).toList := by
  obtain ⟨text, hread, hcompile⟩ := compileFile_eq_ok.mp h
  rw [outputText, String.toList_append, List.mem_append]
  rintro (hmem | hmem)
  · rcases mem_source_of_mem_html hcompile hmem with hsource | hmarkup | hentity
    · exact return_notMem_of_read hread hsource
    · exact absurd hmarkup (by decide)
    · exact absurd hentity (by decide)
  · exact absurd hmem (by decide)

/-- What was written there is current, as long as the input is left alone. -/
theorem checkRendered_of_written (hcompile : s.compileFile input config = .ok c)
    (hwrite : s.write output (outputText c) = (t, none)) (hother : t.place output ≠ t.place input) :
    t.compileFile input config = .ok c ∧ t.checkRendered input output config = .ok "" := by
  have hreturn := return_notMem_outputText hcompile
  obtain ⟨source, hread, hsource⟩ := compileFile_eq_ok.mp hcompile
  have hcompile' : t.compileFile input config = .ok c :=
    compileFile_eq_ok.mpr ⟨source, read_of_write hwrite hread hother, hsource⟩
  have hstored := read_written (wrote_of_write hwrite) hreturn
  refine ⟨hcompile', (checkRendered_eq hcompile' (.present hstored)).trans ?_⟩
  rw [if_pos rfl]

theorem writeText_eq_ok : s.writeText p text = (t, .ok ()) ↔ s.write p text = (t, none) := by
  rw [writeText]
  rcases s.write p text with ⟨t', _ | e⟩ <;> simp

theorem write_of_renderFile (h : s.renderFile input output config = (t, .ok c)) :
    s.compileFile input config = .ok c ∧ s.write output (outputText c) = (t, none) := by
  rw [renderFile] at h
  split at h
  · cases h
  · next c' hcompile =>
    rcases hwrite : s.writeText output (outputText c') with ⟨t', f | ⟨⟩⟩
    · rw [hwrite] at h
      cases h
    · rw [hwrite] at h
      cases h
      exact ⟨hcompile, writeText_eq_ok.mp hwrite⟩

end FormDirectives.Files.Store
