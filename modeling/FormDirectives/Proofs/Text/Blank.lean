import FormDirectives.Text.Blank
import Mathlib.Data.List.TakeWhile

/-! Blanks at the ends of a text. Stripping takes away blanks and nothing else, those that were put there as well as
    those that the text has itself. -/

namespace FormDirectives.Text
variable {cs before after : List Char}

/-- What is stripped of a text are blanks at its ends. -/
theorem exists_strip (cs : List Char) : ∃ before after, (∀ c ∈ before ++ after, isBlank c = true) ∧
    cs = before ++ strip cs ++ after := by
  have hbefore : cs = cs.takeWhile isBlank ++ cs.dropWhile isBlank := List.takeWhile_append_dropWhile.symm
  generalize hrest : cs.dropWhile isBlank = rest at hbefore
  have hafter : rest = strip cs ++ (rest.reverse.takeWhile isBlank).reverse := by
    rw [strip, hrest, ← List.reverse_append, List.takeWhile_append_dropWhile, List.reverse_reverse]
  refine ⟨cs.takeWhile isBlank, (rest.reverse.takeWhile isBlank).reverse, fun c hc => ?_, ?_⟩
  · rw [List.mem_append, List.mem_reverse] at hc
    rcases hc with hc | hc <;> exact List.mem_takeWhile_imp hc
  · rw [List.append_assoc, ← hafter, ← hbefore]

theorem dropWhile_eq_self (h : ∀ c ∈ cs.head?, isBlank c = false) : cs.dropWhile isBlank = cs := by
  cases cs with
  | nil => rfl
  | cons c cs => exact List.dropWhile_cons_of_neg (by simp [h c rfl])

theorem strip_of_blank (h : ∀ c ∈ cs, isBlank c = true) : strip cs = [] := by
  rw [strip, List.dropWhile_eq_nil_iff.mpr h]
  rfl

/-- Blanks around a text are stripped with those that it has itself. -/
theorem strip_padded (hbefore : ∀ c ∈ before, isBlank c = true) (hafter : ∀ c ∈ after, isBlank c = true)
    (cs : List Char) : strip (before ++ cs ++ after) = strip cs := by
  by_cases hblank : ∀ c ∈ cs, isBlank c = true
  · rw [strip_of_blank hblank, strip_of_blank]
    simp only [List.mem_append]
    rintro c ((hc | hc) | hc)
    · exact hbefore c hc
    · exact hblank c hc
    · exact hafter c hc
  · have hrest : (cs.dropWhile isBlank).isEmpty = false := by
      rw [List.isEmpty_eq_false_iff]
      exact fun h => hblank (List.dropWhile_eq_nil_iff.mp h)
    have hdrop : (before ++ cs ++ after).dropWhile isBlank = cs.dropWhile isBlank ++ after := by
      rw [List.append_assoc, List.dropWhile_append_of_pos hbefore, List.dropWhile_append, hrest, if_neg (by simp)]
    have hreverse : ∀ c ∈ after.reverse, isBlank c = true := fun c hc => hafter c (List.mem_reverse.mp hc)
    rw [strip, hdrop, List.reverse_append, List.dropWhile_append_of_pos hreverse, strip]

/-- What begins with text that is not blank keeps that text. -/
theorem prefix_strip {ms : List Char} (hms : ∀ c ∈ ms, isBlank c = false) (hne : ms ≠ []) (rest : List Char) :
    ms <+: strip (ms ++ rest) := by
  have hfirst : ∀ c ∈ (ms ++ rest).head?, isBlank c = false := fun c hc => by
    obtain ⟨m, ms, rfl⟩ := List.exists_cons_of_ne_nil hne
    obtain rfl : m = c := Option.some.inj hc
    exact hms m List.mem_cons_self
  have hlast : ∀ c ∈ ms.reverse.head?, isBlank c = false := fun c hc =>
    hms c (List.mem_reverse.mp (List.mem_of_mem_head? hc))
  rw [strip, dropWhile_eq_self hfirst, List.reverse_append, List.dropWhile_append]
  split
  · have hkept : (ms.reverse.dropWhile isBlank).reverse = ms := by rw [dropWhile_eq_self hlast, List.reverse_reverse]
    exact hkept.symm ▸ List.prefix_rfl
  · rw [List.reverse_append, List.reverse_reverse]
    exact List.prefix_append ms _

/-- Word characters are ASCII characters, from the digits to the small letters. -/
theorem bounds_of_isWord {c : Char} (h : isWord c = true) : 0x30 ≤ c.toNat ∧ c.toNat ≤ 0x7a := by
  delta isWord Char.isAlphanum Char.isAlpha Char.isUpper Char.isLower Char.isDigit at h
  simp only [Bool.or_eq_true, Bool.and_eq_true, decide_eq_true_eq, ge_iff_le, UInt32.le_iff_toNat_le,
    Char.toNat_val, Char.reduceToNat] at h
  rcases h with h | rfl
  · omega
  · decide

end FormDirectives.Text
