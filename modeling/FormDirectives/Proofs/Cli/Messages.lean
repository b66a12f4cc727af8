import FormDirectives.Proofs.Build.Messages
import FormDirectives.Proofs.Cli.Check
import FormDirectives.Proofs.Text.Lines

/-! The lines that a check prints. A diagnostic is written in printable characters, so it is one line of what is
    printed, behind the name of the input. -/

namespace FormDirectives.Cli
open Files Text

/-! ### Printed lines -/

section
variable {ls : List String}

theorem toList_lines (ls : List String) : (lines ls).toList = (ls.map String.toList).flatMap (· ++ ['\n']) := by
  simp [lines, String.toList_join, List.flatMap_map]

theorem lines_append (ls ms : List String) : lines (ls ++ ms) = lines ls ++ lines ms := by
  rw [← String.toList_inj, String.toList_append, toList_lines, toList_lines, toList_lines, List.map_append,
    List.flatMap_append]

theorem feedLines_lines (h : ∀ l ∈ ls, '\n' ∉ l.toList) : feedLines (lines ls).toList = ls.map String.toList := by
  rw [toList_lines, feedLines_flatMap (List.forall_mem_map.mpr h)]

/-- Each line ends with a line feed, besides those that it holds. -/
theorem count_lines {k : Nat} (h : ∀ l ∈ ls, l.toList.count '\n' = k) :
    (lines ls).toList.count '\n' = ls.length * (k + 1) := by
  rw [toList_lines]
  induction ls with
  | nil => exact (Nat.zero_mul _).symm
  | cons l ls ih =>
    obtain ⟨hl, hls⟩ := List.forall_mem_cons.mp h
    rw [List.map_cons, List.flatMap_cons, List.count_append, List.count_append, hl, ih hls, List.length_cons,
      Nat.succ_mul, Nat.add_comm]
    rfl

end

/-! ### Checks -/

/-- What a check prints of a diagnostic. -/
def reportLine (input : Path) (d : Diagnostic) : String := s!"{input}: {d.format}"

/-- What it prints below the diagnostics, if there is nothing to warn of. -/
def closingLines (input : Path) (c : Compiled) : List String :=
  if hasWarnings c.diagnostics then [] else [s!"No structural problems found in {input}."]

/-- All lines that a check prints. -/
def checkLines (input : Path) (c : Compiled) : List String :=
  c.diagnostics.map (reportLine input) ++ closingLines input c

section
variable {s : Store} {a : Arguments} {base : Config} {text : String} {c : Compiled}

theorem stdout_runCheck (hconfig : a.StartsFrom s base) (hinput : s.readSource a.inputPath = .ok text)
    (hcompile : compile (base.withFlags a.strict a.escape) text = .ok c) :
    (runCheck s a).stdout = lines (checkLines a.inputPath c) := by
  have hclosing : lines [s!"No structural problems found in {a.inputPath}."] =
      s!"No structural problems found in {a.inputPath}.\n" := by
    rw [← String.toList_inj, toList_lines]
    simp only [List.map_cons, List.map_nil, List.flatMap_cons, List.flatMap_nil, List.append_nil, String.toList_append,
      List.append_assoc]
    rfl
  rw [runCheck_eq hconfig hinput, hcompile, checkLines, lines_append, closingLines]
  cases hwarnings : hasWarnings c.diagnostics with
  | true =>
    simp only [hwarnings, if_true]
    exact (String.append_empty).symm
  | false =>
    simp only [hwarnings, Bool.false_eq_true, if_false, hclosing]
    rfl

/-- Of the line feeds in a line that is printed, all are those of the name of the input. -/
theorem count_of_mem_checkLines (input : Path) (hc : ∀ d ∈ c.diagnostics, AllPrintable d.format) :
    ∀ l ∈ checkLines input c, l.toList.count '\n' = (toString input).toList.count '\n' := by
  intro l hl
  rcases List.mem_append.mp hl with hl | hl
  · obtain ⟨d, hd, rfl⟩ := List.mem_map.mp hl
    have hnone : d.format.toList.count '\n' = 0 := List.count_eq_zero.mpr (newline_notMem_of_printable (hc d hd))
    have hline : reportLine input d = toString input ++ ": " ++ d.format := rfl
    rw [hline, String.toList_append, String.toList_append, List.count_append, List.count_append, hnone]
    rfl
  · unfold closingLines at hl
    split at hl
    · cases hl
    · have hline : l = "No structural problems found in " ++ toString input ++ "." := List.mem_singleton.mp hl
      rw [hline, String.toList_append, String.toList_append, List.count_append, List.count_append]
      have hzero : "No structural problems found in ".toList.count '\n' = 0 := by decide +kernel
      rw [hzero, Nat.zero_add]
      rfl

end

/-- A diagnostic is written in printable characters and bears the number of a line of its source. If the messages on
    two refused lines are equal, the lines are equal but for the blanks at their ends; if those on two contents that are
    not escaped are, so are the kinds of the nodes that show them, and the values. A check prints the diagnostics one a
    line, with no more line feeds than the name of the input holds. -/
theorem diagnostics_are_printable_lines :
    (∀ (config : Config) (source : String) (c : Compiled), compile config source = .ok c → ∀ d ∈ c.diagnostics,
      AllPrintable d.format ∧ ∃ n : Nat, d.line = some (n : Int) ∧ 1 ≤ n ∧ n ≤ lineCount source) ∧
    (∀ (config config' : Config) (source source' : String) (c c' : Compiled), compile config source = .ok c →
      compile config' source' = .ok c' → ∀ d ∈ c.diagnostics, ∀ d' ∈ c'.diagnostics,
      d.issue.message = d'.issue.message →
      (d.issue.code = "UnparsableLine" → d'.issue.code = "UnparsableLine" →
        ∃ line line', d.IsOn source line ∧ d'.IsOn source' line' ∧ strip line = strip line') ∧
      (d.issue.code = "UnescapedContent" → d'.issue.code = "UnescapedContent" →
        ∃ n ∈ c.tree.nodes, ∃ n' ∈ c'.tree.nodes, n.Reports d ∧ n'.Reports d' ∧ n.kind = n'.kind ∧
          d.issue = d'.issue)) ∧
    ∀ (s : Store) (args : List String) (a : Arguments) (base : Config) (source : String) (c : Compiled),
      read args = .ok (.check, a) → a.StartsFrom s base → s.readSource a.inputPath = .ok source →
      compile (base.withFlags a.strict a.escape) source = .ok c →
      (run s args).stdout = lines (checkLines a.inputPath c) ∧
      (run s args).stdout.toList.count '\n' =
        (checkLines a.inputPath c).length * ((toString a.inputPath).toList.count '\n' + 1) ∧
      ('\n' ∉ (toString a.inputPath).toList →
        feedLines (run s args).stdout.toList = (checkLines a.inputPath c).map String.toList) := by
  have hprintable {config : Config} {source : String} {c : Compiled} (hc : compile config source = .ok c) :
      ∀ d ∈ c.diagnostics, AllPrintable d.format := fun d hd => by
    obtain ⟨line, -, htells⟩ := sited_of_mem_diagnostics hc hd
    exact Diagnostic.allPrintable_format htells
  refine ⟨fun config source c hc d hd => ⟨hprintable hc d hd, ?_⟩, fun config config' source source' c c' hc hc' d hd d'
    hd' hmessage => ⟨fun hcode hcode' => ?_, fun hcode hcode' => ?_⟩, fun s args a base source c hargs hconfig hinput
    hc => ?_⟩
  · obtain ⟨line, hline, -⟩ := sited_of_mem_diagnostics hc hd
    exact hline.bounds
  · exact strip_eq_of_message (sited_of_mem_diagnostics hc hd) (sited_of_mem_diagnostics hc' hd') hcode hcode' hmessage
  · exact content_eq_of_message hc hd hc' hd' hcode hcode' hmessage
  · have hcount := count_of_mem_checkLines a.inputPath (hprintable hc)
    have hstdout : (run s args).stdout = lines (checkLines a.inputPath c) := by
      rw [run_eq hargs]
      exact stdout_runCheck hconfig hinput hc
    rw [hstdout]
    refine ⟨rfl, count_lines hcount, fun hpath => feedLines_lines fun l hl => ?_⟩
    rw [← List.count_eq_zero, hcount l hl, List.count_eq_zero]
    exact hpath

/-- A bell and a line separator in a line, and an escape character in a value. -/
def hostileForm : String := "x\u2028y \x07\n@input label=\"<\x1b>\""

def hostile : Store where
  items := .ofList [(["form.mdx"], .file hostileForm.toUTF8)]

theorem readSource_hostileForm : hostile.readSource (.ofString "form.mdx") = .ok hostileForm :=
  eq_ok_of_toOption (by decide +kernel)

theorem hostile_form_checked :
    let written := ["line 1: [UnparsableLine] not a directive line: 'x\\u2028y \\x07'",
      "line 2: [UnescapedContent] @input emits '<\\x1b>' without HTML escaping"]
    ∃ c, compile {} hostileForm = .ok c ∧ c.diagnostics.map Diagnostic.format = written ∧
      (∀ l ∈ written, AllPrintable l) ∧
      feedLines (run hostile ["check", "--in", "form.mdx"]).stdout.toList =
        written.map fun l => ("form.mdx: " ++ l).toList := by
  intro written
  obtain ⟨hwritten, -, hcheck⟩ := diagnostics_are_printable_lines
  have hargs := read_spelled .check [.value "--in" "form.mdx"] (by decide) (by decide)
  have hc := compile_false_eq {} hostileForm
  have hformats : ((parseLenient (tokenize hostileForm)).compiled {} hostileForm).diagnostics.map Diagnostic.format =
      written := by decide +kernel
  obtain ⟨-, -, hlines⟩ := hcheck hostile _ _ {} hostileForm _ hargs rfl readSource_hostileForm hc
  refine ⟨_, hc, hformats, ?_, (hlines (by decide)).trans ?_⟩
  · rw [← hformats]
    exact List.forall_mem_map.mpr fun d hd => (hwritten _ _ _ hc d hd).1
  · decide +kernel

end FormDirectives.Cli
