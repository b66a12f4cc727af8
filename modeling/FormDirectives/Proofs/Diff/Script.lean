import FormDirectives.Diff.Script

/-! What an edit script says. Whichever lines count and whichever run was found, the shared part is a part of both
    lists, so both are read off the script, the parts that it keeps in either. -/

namespace FormDirectives.Diff
variable {old new : List String}

/-! ### Shared lines -/

theorem take_sharedPrefixLength : ∀ as bs : List String,
    as.take (sharedPrefixLength as bs) = bs.take (sharedPrefixLength as bs)
  | [], bs => by simp [sharedPrefixLength]
  | _ :: _, [] => by simp [sharedPrefixLength]
  | a :: as, b :: bs => by
    rw [sharedPrefixLength]
    split
    · next h => rw [List.take_succ_cons, List.take_succ_cons, h, take_sharedPrefixLength as bs]
    · rfl

theorem drop_sharedSuffixLength (as bs : List String) :
    as.drop (as.length - sharedSuffixLength as bs) = bs.drop (bs.length - sharedSuffixLength as bs) := by
  have h := congrArg List.reverse (take_sharedPrefixLength as.reverse bs.reverse)
  rwa [List.reverse_take, List.reverse_take, List.reverse_reverse, List.reverse_reverse, List.length_reverse,
    List.length_reverse] at h

theorem sharedSuffixLength_le (as bs : List String) :
    sharedSuffixLength as bs ≤ as.length ∧ sharedSuffixLength as bs ≤ bs.length := by
  have h := sharedPrefixLength_le as.reverse bs.reverse
  rwa [List.length_reverse, List.length_reverse] at h

/-! ### The longest run -/

theorem length_runRow_le (counts : String → Bool) (line : String) (new : List String) (before : List Nat) :
    (runRow counts line new before).length ≤ new.length := by
  unfold runRow
  split
  · rw [List.length_zipWith]
    exact Nat.min_le_left _ _
  · exact Nat.le_of_eq (List.length_map _)

/-- The run starts inside of both lists, or at their ends. -/
def Run.Within (r : Run) (old new : List String) : Prop := r.old ≤ old.length ∧ r.new ≤ new.length

theorem longestRun_within (counts : String → Bool) (old new : List String) :
    (longestRun counts old new).Within old new := by
  refine List.foldlRecOn (motive := fun found : List Nat × Run => found.2.Within old new) old.zipIdx _
    ⟨Nat.zero_le _, Nat.zero_le _⟩ fun (before, best) hbest (line, i) hline => ?_
  refine List.foldlRecOn (motive := fun best : Run => best.Within old new)
    (runRow counts line new before).zipIdx _ hbest fun best hbest (k, j) hlength => ?_
  have hi : i < old.length + 0 := List.snd_lt_of_mem_zipIdx hline
  have hj : j < (runRow counts line new before).length + 0 := List.snd_lt_of_mem_zipIdx hlength
  have hrow := length_runRow_le counts line new before
  dsimp only
  split
  · exact ⟨by dsimp only; omega, by dsimp only; omega⟩
  · exact hbest

/-! ### The shared part -/

/-- From where they start, both lists have the lines of the shared part. -/
theorem split_shared (counts : String → Bool) (old new : List String) :
    (old.drop (split counts old new).old).take (split counts old new).length =
      (new.drop (split counts old new).new).take (split counts old new).length := by
  obtain ⟨hold, hnew⟩ := longestRun_within counts old new
  simp only [split]
  generalize longestRun counts old new = run at hold hnew
  have hback := drop_sharedSuffixLength (old.take run.old) (new.take run.new)
  have hle := sharedSuffixLength_le (old.take run.old) (new.take run.new)
  have hahead := take_sharedPrefixLength (old.drop run.old) (new.drop run.new)
  generalize sharedSuffixLength (old.take run.old) (new.take run.new) = back at hback hle
  generalize sharedPrefixLength (old.drop run.old) (new.drop run.new) = ahead at hahead
  rw [List.length_take, Nat.min_eq_left hold, List.length_take, Nat.min_eq_left hnew] at hback hle
  have hparts (ls : List String) (n : Nat) (hback : back ≤ n) :
      (ls.drop (n - back)).take (back + ahead) = (ls.take n).drop (n - back) ++ (ls.drop n).take ahead := by
    rw [List.take_add, List.drop_drop, Nat.sub_add_cancel hback, List.drop_take, Nat.sub_sub_self hback]
  rw [hparts old run.old hle.1, hparts new run.new hle.2, hback, hahead]

/-! ### Scripts -/

theorem script_old (counts : String → Bool) (old new : List String) :
    (script counts old new).flatMap Edit.old = old := by
  fun_induction script counts old new with
  | case1 old new s h ihBefore ihAfter =>
    rw [List.flatMap_append, List.flatMap_cons, ihBefore, ihAfter, Edit.old, ← List.drop_drop,
      List.take_append_drop, List.take_append_drop]
  | case2 old new s h hnil => exact hnil.1.symm
  | case3 old new s h hnil => exact List.append_nil old

theorem script_new (counts : String → Bool) (old new : List String) :
    (script counts old new).flatMap Edit.new = new := by
  fun_induction script counts old new with
  | case1 old new s h ihBefore ihAfter =>
    have hshared : (old.drop s.old).take s.length = (new.drop s.new).take s.length := split_shared counts old new
    rw [List.flatMap_append, List.flatMap_cons, ihBefore, ihAfter, Edit.new, hshared, ← List.drop_drop,
      List.take_append_drop, List.take_append_drop]
  | case2 old new s h hnil => exact hnil.2.symm
  | case3 old new s h hnil => exact List.append_nil new

theorem flatMap_merge {f : Edit → List String} (hf : ∀ ls, f (.keep ls) = ls) (es : List Edit) :
    (merge es).flatMap f = es.flatMap f := by
  fun_induction merge es with
  | case1 as rest bs rest' hmerge ih =>
    rw [hmerge, List.flatMap_cons, hf] at ih
    rw [List.flatMap_cons, List.flatMap_cons, hf, hf, List.append_assoc, ih]
  | case2 as rest _ ih => rw [List.flatMap_cons, List.flatMap_cons, ih]
  | case3 e rest _ ih => rw [List.flatMap_cons, List.flatMap_cons, ih]
  | case4 => rfl

/-- Both lists are read off the script that leads from the one to the other. -/
theorem compare_spells (old new : List String) :
    (compare old new).flatMap Edit.old = old ∧ (compare old new).flatMap Edit.new = new := by
  unfold compare
  rw [flatMap_merge fun _ => rfl, flatMap_merge fun _ => rfl]
  exact ⟨script_old _ old new, script_new _ old new⟩

end FormDirectives.Diff
