import FormDirectives.Diff.Unified
import FormDirectives.Proofs.Diff.Script

/-! What the hunks of a comparison say. Each one starts where it says it does, the lines that it shows are lines of the
    two lists there, and all lines outside of the hunks are shared. So the hunks alone lead from the one list to the
    other, and if there are none, the two are the same. -/

namespace FormDirectives.Diff

theorem map_edit_locate (i j : Nat) (edits : List Edit) : (locate i j edits).map Located.edit = edits := by
  induction edits generalizing i j with
  | nil => rfl
  | cons e edits ih => rw [locate, List.map_cons, ih]

/-- A series of hunks that leads from the one list to the other, behind so many lines of each: with lines that both
    share between the hunks, and every edit of a hunk at its place. -/
inductive Leads : Nat → Nat → List (List Located) → List String → List String → Prop
  | done (i j : Nat) (rest : List String) : Leads i j [] rest rest
  | hunk {i j : Nat} (gap : List String) (edits : List Edit) {hs : List (List Located)} {old new : List String}
      (h : Leads (i + gap.length + (edits.flatMap Edit.old).length) (j + gap.length + (edits.flatMap Edit.new).length)
        hs old new) :
      Leads i j (locate (i + gap.length) (j + gap.length) edits :: hs) (gap ++ (edits.flatMap Edit.old ++ old))
        (gap ++ (edits.flatMap Edit.new ++ new))

namespace Leads
variable {i j : Nat} {hs : List (List Located)} {old new : List String}

/-- Shared lines before the first hunk are lines outside of the hunks. -/
theorem behind (gap : List String) (h : Leads (i + gap.length) (j + gap.length) hs old new) :
    Leads i j hs (gap ++ old) (gap ++ new) := by
  cases h with
  | done => exact .done i j (gap ++ old)
  | hunk gap' edits h =>
    have hlength (n : Nat) : n + gap.length + gap'.length = n + (gap ++ gap').length := by
      rw [List.length_append, Nat.add_assoc]
    rw [hlength, hlength] at h ⊢
    rw [← List.append_assoc, ← List.append_assoc gap]
    exact .hunk (gap ++ gap') edits h

theorem eq_of_nil (h : Leads i j [] old new) : old = new := by
  cases h
  rfl

/-- A hunk shows lines of the two lists only. -/
theorem mem_lines (h : Leads i j hs old new) {hunk : List Located} (hhunk : hunk ∈ hs) {l : Located} (hl : l ∈ hunk)
    {line : String} (hline : line ∈ l.edit.old ++ l.edit.new) : line ∈ old ++ new := by
  induction h with
  | done => exact absurd hhunk List.not_mem_nil
  | @hunk i j gap edits hs old new h ih =>
    simp only [List.mem_append] at hline ih ⊢
    rcases List.mem_cons.mp hhunk with rfl | hhunk
    · have he : l.edit ∈ edits := by
        rw [← map_edit_locate (i + gap.length) (j + gap.length) edits]
        exact List.mem_map_of_mem hl
      exact hline.imp (fun h => Or.inr (Or.inl (List.mem_flatMap_of_mem he h)))
        fun h => Or.inr (Or.inl (List.mem_flatMap_of_mem he h))
    · exact (ih hhunk).imp (fun h => Or.inr (Or.inr h)) fun h => Or.inr (Or.inr h)

end Leads

/-! ### Hunks without a change -/

theorem hasChange_locate {i j : Nat} {edits : List Edit} (h : hasChange (locate i j edits) = false) :
    edits.flatMap Edit.old = edits.flatMap Edit.new := by
  induction edits generalizing i j with
  | nil => rfl
  | cons e edits ih =>
    simp only [locate, hasChange, List.any_cons, Bool.or_eq_false_iff] at h
    cases e with
    | keep ls => rw [List.flatMap_cons, List.flatMap_cons, ih h.2, Edit.old, Edit.new]
    | change old new => exact absurd h.1 (by simp)

theorem Leads.filter {i j : Nat} {hs : List (List Located)} {old new : List String} (h : Leads i j hs old new) :
    Leads i j (hs.filter hasChange) old new := by
  induction h with
  | done i j rest => exact .done i j rest
  | @hunk i j gap edits hs old new h ih =>
    cases hchange : hasChange (locate (i + gap.length) (j + gap.length) edits) with
    | true =>
      rw [List.filter_cons_of_pos hchange]
      exact .hunk gap edits ih
    | false =>
      rw [List.filter_cons_of_neg (by simp [hchange])]
      have hshared := hasChange_locate hchange
      rw [hshared] at ih ⊢
      exact .behind gap (.behind _ ih)

/-! ### Cutting into hunks -/

/-- A series of hunks that leads from the one list to the other and starts with a hunk at once. -/
inductive LeadsAtOnce : Nat → Nat → List (List Located) → List String → List String → Prop
  | intro {i j : Nat} (edits : List Edit) {hs : List (List Located)} {old new : List String}
      (h : Leads (i + (edits.flatMap Edit.old).length) (j + (edits.flatMap Edit.new).length) hs old new) :
      LeadsAtOnce i j (locate i j edits :: hs) (edits.flatMap Edit.old ++ old) (edits.flatMap Edit.new ++ new)

namespace LeadsAtOnce
variable {i j : Nat} {hs : List (List Located)} {hunk : List Located} {old new : List String}

theorem leads (h : LeadsAtOnce i j hs old new) : Leads i j hs old new := by
  cases h with
  | intro edits h => exact .hunk [] edits h

theorem nothing (i j : Nat) (rest : List String) : LeadsAtOnce i j [[]] rest rest := .intro [] (.done i j rest)

theorem single (e : Edit) (h : Leads (i + e.old.length) (j + e.new.length) hs old new) :
    LeadsAtOnce i j ([{ old := i, new := j, edit := e }] :: hs) (e.old ++ old) (e.new ++ new) := by
  have hedits (f : Edit → List String) : [e].flatMap f = f e := List.flatMap_singleton f e
  rw [← hedits Edit.old, ← hedits Edit.new] at h ⊢
  exact intro [e] h

theorem cons (e : Edit) (h : LeadsAtOnce (i + e.old.length) (j + e.new.length) (hunk :: hs) old new) :
    LeadsAtOnce i j (({ old := i, new := j, edit := e } :: hunk) :: hs) (e.old ++ old) (e.new ++ new) := by
  cases h with
  | intro edits h =>
    rw [← List.append_assoc, ← List.append_assoc]
    refine .intro (e :: edits) ?_
    rwa [List.flatMap_cons, List.flatMap_cons, List.length_append, List.length_append, ← Nat.add_assoc, ← Nat.add_assoc]

/-- The lines between the end of one hunk and the start of the next are outside of both. -/
theorem cut (ends between starts : List String)
    (h : LeadsAtOnce (i + (ends ++ between ++ starts).length) (j + (ends ++ between ++ starts).length) (hunk :: hs)
      old new) :
    LeadsAtOnce i j ([{ old := i, new := j, edit := .keep ends }] ::
        ({ old := i + (ends ++ between).length, new := j + (ends ++ between).length, edit := .keep starts } :: hunk) ::
          hs)
      (ends ++ between ++ starts ++ old) (ends ++ between ++ starts ++ new) := by
  simp only [List.length_append, List.append_assoc, ← Nat.add_assoc] at h ⊢
  have hnext : LeadsAtOnce (i + ends.length + between.length) (j + ends.length + between.length) _ _ _ :=
    h.cons (.keep starts)
  exact single (.keep ends) (hnext.leads.behind between)

theorem cut_long {ls : List String} (hlong : 2 * context < ls.length)
    (h : LeadsAtOnce (i + ls.length) (j + ls.length) (hunk :: hs) old new) :
    LeadsAtOnce i j ([{ old := i, new := j, edit := .keep (ls.take context) }] ::
        ({ old := i + (ls.length - context), new := j + (ls.length - context)
           edit := .keep (ls.drop (ls.length - context)) } :: hunk) :: hs)
      (ls ++ old) (ls ++ new) := by
  have hbefore : ls.take context ++ (ls.take (ls.length - context)).drop context = ls.take (ls.length - context) := by
    have hends : (ls.take (ls.length - context)).take context = ls.take context := by
      rw [List.take_take, Nat.min_eq_left (by omega)]
    rw [← hends, List.take_append_drop]
  have hparts : ls.take context ++ (ls.take (ls.length - context)).drop context ++ ls.drop (ls.length - context) =
      ls := by
    rw [hbefore, List.take_append_drop]
  have hgone : (ls.take context ++ (ls.take (ls.length - context)).drop context).length = ls.length - context := by
    rw [hbefore, List.length_take, Nat.min_eq_left (Nat.sub_le _ _)]
  have hcut : LeadsAtOnce i j _ _ _ := cut (ls.take context) _ (ls.drop (ls.length - context)) (hparts.symm ▸ h)
  rwa [hparts, hgone] at hcut

theorem group_cons (e : Edit) {rest : List Located}
    (h : LeadsAtOnce (i + e.old.length) (j + e.new.length) (group rest) old new) :
    LeadsAtOnce i j (group ({ old := i, new := j, edit := e } :: rest)) (e.old ++ old) (e.new ++ new) := by
  rw [group]
  generalize group rest = gs at h
  rcases gs with _ | ⟨hunk, hs⟩
  · cases h
  · cases e with
    | change _ _ => exact h.cons _
    | keep ls =>
      dsimp only
      split
      · next hlong => exact h.cut_long hlong
      · exact h.cons _

end LeadsAtOnce

theorem leadsAtOnce_trimLast {i j : Nat} (edits : List Edit) : LeadsAtOnce i j (group (trimLast (locate i j edits)))
    (edits.flatMap Edit.old) (edits.flatMap Edit.new) := by
  induction edits generalizing i j with
  | nil => exact .nothing i j []
  | cons e rest ih =>
    rcases rest with _ | ⟨e', rest⟩
    · cases e with
      | change old new => exact .group_cons (.change old new) (.nothing _ _ [])
      | keep ls =>
        have h : LeadsAtOnce i j (group [{ old := i, new := j, edit := .keep (ls.take context) }]) _ _ :=
          .group_cons (.keep (ls.take context)) (.nothing _ _ (ls.drop context))
        rw [Edit.old, Edit.new, List.take_append_drop] at h
        rw [List.flatMap_singleton, List.flatMap_singleton]
        exact h
    · exact .group_cons e ih

theorem trimFirst_locate (edits : List Edit) : ∃ (gap : List String) (edits' : List Edit),
    trimFirst (locate 0 0 edits) = locate gap.length gap.length edits' ∧
    edits.flatMap Edit.old = gap ++ edits'.flatMap Edit.old ∧
    edits.flatMap Edit.new = gap ++ edits'.flatMap Edit.new := by
  rcases edits with _ | ⟨e, rest⟩
  · exact ⟨[], [], rfl, rfl, rfl⟩
  · cases e with
    | change old new => exact ⟨[], .change old new :: rest, rfl, rfl, rfl⟩
    | keep ls =>
      refine ⟨ls.take (ls.length - context), .keep (ls.drop (ls.length - context)) :: rest, ?_, ?_, ?_⟩
      · have hend : ls.length - context + (ls.drop (ls.length - context)).length = ls.length := by
          rw [List.length_drop]
          omega
        have hgap : (ls.take (ls.length - context)).length = ls.length - context := by
          rw [List.length_take]
          omega
        rw [hgap]
        simp only [locate, trimFirst, Located.last, Edit.old, Edit.new, Nat.zero_add, hend]
      · rw [List.flatMap_cons, List.flatMap_cons, ← List.append_assoc, Edit.old, Edit.old, List.take_append_drop]
      · rw [List.flatMap_cons, List.flatMap_cons, ← List.append_assoc, Edit.new, Edit.new, List.take_append_drop]

theorem leads_hunks (edits : List Edit) :
    Leads 0 0 (hunks edits) (edits.flatMap Edit.old) (edits.flatMap Edit.new) := by
  obtain ⟨gap, edits', htrim, hold, hnew⟩ := trimFirst_locate edits
  rw [hunks, htrim, hold, hnew]
  have h : LeadsAtOnce gap.length gap.length _ _ _ := leadsAtOnce_trimLast edits'
  refine Leads.filter (Leads.behind gap ?_)
  rw [Nat.zero_add]
  exact h.leads

theorem ne_nil_of_mem_hunks {edits : List Edit} {hunk : List Located} (h : hunk ∈ hunks edits) : hunk ≠ [] := by
  rintro rfl
  exact absurd (List.mem_filter.mp h).2 (by decide)

theorem leads_compare (old new : List String) : Leads 0 0 (hunks (compare old new)) old new := by
  have h := leads_hunks (compare old new)
  rwa [(compare_spells old new).1, (compare_spells old new).2] at h

end FormDirectives.Diff
