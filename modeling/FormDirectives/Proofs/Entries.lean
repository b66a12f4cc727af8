import FormDirectives.OrderedMap
import Mathlib.Data.List.Induction
import Mathlib.Data.List.Nodup

/-! The entries of a map that is filled one after the other. Its keys are the first occurrences among the keys that were
    put, and each holds the value that was put for it last. -/

namespace FormDirectives

/-! ### First occurrences -/

/-- The values of a list, each once and in the order in which they first come. -/
structure Firsts (values firsts : List String) : Prop where
  nodup : firsts.Nodup
  mem : ∀ v, v ∈ firsts ↔ v ∈ values
  order : firsts.Pairwise fun v w => values.idxOf v < values.idxOf w

namespace Firsts
variable {values firsts : List String} {v : String}

theorem pairwise_concat (h : Firsts values firsts) (v : String) :
    firsts.Pairwise fun u w => (values ++ [v]).idxOf u < (values ++ [v]).idxOf w := by
  refine h.order.imp_of_mem fun hu hw hlt => ?_
  rwa [List.idxOf_append_of_mem ((h.mem _).mp hu), List.idxOf_append_of_mem ((h.mem _).mp hw)]

theorem concat_of_mem (h : Firsts values firsts) (hv : v ∈ values) : Firsts (values ++ [v]) firsts where
  nodup := h.nodup
  mem u := by
    rw [h.mem, List.mem_append, List.mem_singleton, or_iff_left_of_imp]
    rintro rfl
    exact hv
  order := h.pairwise_concat v

theorem concat_of_notMem (h : Firsts values firsts) (hv : v ∉ values) : Firsts (values ++ [v]) (firsts ++ [v]) where
  nodup := List.nodup_append.mpr ⟨h.nodup, List.nodup_singleton v, fun u hu w hw huw => by
    rw [List.mem_singleton] at hw
    exact hv (hw ▸ huw ▸ (h.mem u).mp hu)⟩
  mem u := by rw [List.mem_append, List.mem_append, h.mem]
  order := by
    refine List.pairwise_append.mpr ⟨h.pairwise_concat v, List.pairwise_singleton _ v, fun u hu w hw => ?_⟩
    rw [List.mem_singleton.mp hw, List.idxOf_append_of_mem ((h.mem u).mp hu), List.idxOf_append_of_notMem hv]
    exact Nat.lt_add_right _ (List.idxOf_lt_length_of_mem ((h.mem u).mp hu))

theorem unique {firsts' : List String} (h : Firsts values firsts) (h' : Firsts values firsts') : firsts = firsts' := by
  have hperm : firsts.Perm firsts' := (List.perm_ext_iff_of_nodup h.nodup h'.nodup).mpr fun v => by rw [h.mem, h'.mem]
  refine hperm.eq_of_pairwise (fun u v _ _ huv hvu => ?_) h.order h'.order
  exact absurd huv (Nat.lt_asymm hvu)

end Firsts

/-! ### Entries -/

namespace OrderedMap
variable {α : Type}

theorem ofList_concat (es : List (String × α)) (e : String × α) : ofList (es ++ [e]) = (ofList es).insert e.1 e.2 := by
  rw [ofList, List.foldl_append]
  rfl

theorem firsts_keys_ofList (es : List (String × α)) : Firsts (es.map (·.1)) (ofList es).keys := by
  induction es using List.reverseRecOn with
  | nil => exact ⟨List.nodup_nil, fun _ => Iff.rfl, .nil⟩
  | append_singleton es e ih =>
    rw [ofList_concat, keys_insert, List.map_append]
    split
    · next hmem => exact ih.concat_of_mem ((ih.mem e.1).mp hmem)
    · next hnew => exact ih.concat_of_notMem fun hmem => hnew ((ih.mem e.1).mpr hmem)

theorem get?_ofList (es : List (String × α)) (key : String) :
    (ofList es).get? key = (es.filter fun e => e.1 = key).getLast?.map (·.2) := by
  induction es using List.reverseRecOn with
  | nil => rfl
  | append_singleton es e ih =>
    rw [ofList_concat, get?_insert, List.filter_append]
    by_cases hkey : e.1 = key
    · rw [if_pos hkey.symm, List.filter_cons_of_pos (by simpa using hkey), List.filter_nil, List.getLast?_concat]
      rfl
    · rw [if_neg (Ne.symm hkey), List.filter_cons_of_neg (by simpa using hkey), List.filter_nil, List.append_nil, ih]

end OrderedMap
end FormDirectives
