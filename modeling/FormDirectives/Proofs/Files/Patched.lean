import FormDirectives.Proofs.Diff.Printed
import FormDirectives.Proofs.Files.Rendered

/-! What a check returns as a patch. Its hunks lead from the lines of the output to the lines of a fresh rendering, and
    below the names there are headers and marked lines only. It applies if line feeds are the only line boundaries in
    both texts and each ends with one. It need not apply otherwise: a line without a line feed runs into what is
    printed behind it. -/

namespace FormDirectives.Files.Store
open Diff

/-- Whatever an output that is not current holds, the hunks that are returned lead from its lines to those of a fresh
    rendering. If the name of the output is one line, what is returned consists of two lines with the names, of headers
    and of marked lines; and if both texts consist of lines that end with line feeds, it makes the one text of the
    other. -/
theorem returned_diff_leads {s : Store} {input output : Path} {config : Config} {c : Compiled} {stored : Option String}
    {diff : String} (hcompile : s.compileFile input config = .ok c) (hstored : s.Stored output stored)
    (hdiff : s.checkRendered input output config = .ok diff) (hne : diff ≠ "") :
    (∃ hs, Leads 0 0 hs (lines (stored.getD "")) (lines (c.html ++ "\n")) ∧ diff = "--- current/" ++ output.name ++
      "\n+++ rendered/" ++ output.name ++ "\n" ++ String.join (hs.map hunkText)) ∧
    ('\n' ∉ output.name.toList →
      (∃ shown, Text.feedLines diff.toList =
          ("--- current/" ++ output.name).toList :: ("+++ rendered/" ++ output.name).toList :: shown ∧
        ∀ l ∈ shown, (∃ old new, l = Patch.headerText old new) ∨ ∃ m ∈ [' ', '-', '+'], ∃ rest, l = m :: rest) ∧
      (Text.OnlyFeeds (stored.getD "").toList → Text.OnlyFeeds (c.html ++ "\n").toList →
        Patch.patched? diff (stored.getD "") = some (c.html ++ "\n"))) := by
  rcases checkRendered_cases hcompile hstored with ⟨-, hchecked⟩ | ⟨-, hdiffers, hchecked⟩
  · exact absurd (Except.ok.inj (hdiff.symm.trans hchecked)) hne
  · have hold : "--- " ++ s!"current/{output.name}" = "--- current/" ++ output.name := String.append_assoc.symm
    have hnew : "+++ " ++ s!"rendered/{output.name}" = "+++ rendered/" ++ output.name := String.append_assoc.symm
    have hunified := Except.ok.inj (hdiff.symm.trans hchecked)
    refine ⟨⟨_, leads_compare _ _, ?_⟩, fun hname => ?_⟩
    · have hnames : "--- " ++ s!"current/{output.name}" ++ "\n+++ " ++ s!"rendered/{output.name}" =
          "--- current/" ++ output.name ++ "\n+++ rendered/" ++ output.name := by
        rw [← String.toList_inj]
        simp only [String.toList_append, List.append_assoc]
        rfl
      rw [hunified, unified_of_ne hdiffers, hnames]
      rfl
    · have hcurrent : '\n' ∉ (s!"current/{output.name}").toList := Patch.newline_notMem_append (by decide) hname
      have hrendered : '\n' ∉ (s!"rendered/{output.name}").toList := Patch.newline_notMem_append (by decide) hname
      have hlines := Patch.feedLines_unified hcurrent hrendered hdiffers
      rw [hold, hnew] at hlines
      rw [hunified]
      exact ⟨⟨_, hlines, fun l => Patch.marked_of_mem_feedLines (leads_compare _ _)⟩,
        Patch.patched?_unified hcurrent hrendered hdiffers⟩

def editedText : String := "<!-- unknown node: b -->\n<p>\n"

/-- A form of unknown directives, and an output in which the first is missing and something stands behind the last. -/
def edited : Store where
  items := .ofList [(["form.mdx"], .file "@a\n@b".toUTF8), (["out.html"], .file editedText.toUTF8)]

/-- Both ends of the output are patched. -/
theorem edited_output_patched : ∃ diff,
    edited.checkRendered (.ofString "form.mdx") (.ofString "out.html") {} = .ok diff ∧
    Patch.patched? diff editedText = some "<!-- unknown node: a -->\n<!-- unknown node: b -->\n" := by
  have hrendered : (edited.compileFile (.ofString "form.mdx") {}).toOption.map outputText =
      some "<!-- unknown node: a -->\n<!-- unknown node: b -->\n" := by decide +kernel
  obtain ⟨c, hc, hfresh⟩ := Option.map_eq_some_iff.mp hrendered
  have hcompile := eq_ok_of_toOption hc
  have hstored : edited.Stored (.ofString "out.html") (some editedText) :=
    .present (eq_ok_of_toOption (by decide +kernel))
  have hstale : editedText ≠ outputText c := by
    rw [hfresh]
    decide +kernel
  have hdiff := checkRendered_eq hcompile hstored
  rw [if_neg fun h => hstale (Option.some.inj h)] at hdiff
  obtain ⟨-, hpatch⟩ := returned_diff_leads hcompile hstored hdiff (unified_ne_empty hstale)
  obtain ⟨-, happly⟩ := hpatch (by decide +kernel)
  have hfresh : c.html ++ "\n" = "<!-- unknown node: a -->\n<!-- unknown node: b -->\n" := hfresh
  rw [hfresh, Option.getD_some] at happly
  have hedited : Text.OnlyFeeds editedText.toList := Text.onlyFeeds_ofList (by decide) (by decide)
  exact ⟨_, hdiff, happly hedited (Text.onlyFeeds_ofList (by decide) (by decide))⟩

/-- A form without a directive, and an output whose only line is not ended. -/
def unended : Store where
  items := .ofList [(["form.mdx"], .file "".toUTF8), (["out.html"], .file "a".toUTF8)]

/-- The line that is deleted runs into the one that is inserted, so the diff that is returned does not apply. -/
theorem unended_line_runs_on :
    unended.checkRendered (.ofString "form.mdx") (.ofString "out.html") {} =
      .ok "--- current/out.html\n+++ rendered/out.html\n@@ -1 +1 @@\n-a+\n" ∧
    unended.read (.ofString "out.html") = .ok "a" ∧
    (compile {} "").map Store.outputText = .ok "\n" ∧
    Patch.patched? "--- current/out.html\n+++ rendered/out.html\n@@ -1 +1 @@\n-a+\n" "a" = none := by
  refine ⟨eq_ok_of_toOption ?_, eq_ok_of_toOption ?_, eq_ok_of_toOption ?_, ?_⟩ <;> decide +kernel

end FormDirectives.Files.Store
