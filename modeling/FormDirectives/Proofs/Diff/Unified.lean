import FormDirectives.Proofs.Diff.Hunks

/-! Unified diffs of texts. The lines of a text keep all of its characters, so different texts have different lines, and
    a comparison of them has a hunk to show. -/

namespace FormDirectives.Diff
variable {oldName newName oldText newText : String}

theorem flatMap_lines (s : String) : (lines s).flatMap String.toList = s.toList := by
  rw [lines, List.flatMap_map]
  simp only [String.toList_ofList]
  rw [List.flatMap_id', Text.flatten_linesWithEnds]

theorem lines_injective : Function.Injective lines := fun s t h => by
  rw [← String.toList_inj, ← flatMap_lines, h, flatMap_lines]

theorem unified_of_ne (h : oldText ≠ newText) : unified oldName newName oldText newText =
    "--- " ++ oldName ++ "\n+++ " ++ newName ++ "\n" ++
      String.join ((hunks (compare (lines oldText) (lines newText))).map hunkText) := by
  have hleads := leads_compare (lines oldText) (lines newText)
  rw [unified]
  split
  · next hnone =>
    rw [hnone] at hleads
    exact absurd (lines_injective hleads.eq_of_nil) h
  · rfl

theorem unified_ne_empty (h : oldText ≠ newText) : unified oldName newName oldText newText ≠ "" := by
  rw [unified_of_ne h]
  intro hempty
  have hheader : "--- " = "" := by simp_all only [String.append_eq_empty_iff]
  exact absurd hheader (by decide)

end FormDirectives.Diff
