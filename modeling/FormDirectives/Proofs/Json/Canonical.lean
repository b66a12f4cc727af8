import FormDirectives.Proofs.Json.Limits
import Mathlib.Data.List.Nodup
import Mathlib.Data.List.Perm.Basic

/-! Canonical texts. Sorting the members leaves of an object only which members it has, as long as no key comes twice:
    two values sort to the same one exactly if they differ in nothing but the order of members. Since the text that is
    written determines the value that it is written from, the texts of two values agree exactly then. The order of
    members has no part in whether a value has a text, as all its limits are the same. -/

namespace FormDirectives.Json

/-! ### Members in another order -/

mutual

/-- No object holds a key twice, at any depth. -/
def Distinct : Json → Prop
  | .array items => DistinctItems items
  | .object members => (members.map (·.1)).Nodup ∧ DistinctMembers members
  | .null | .bool _ | .int _ | .string _ => True

def DistinctItems : List Json → Prop
  | [] => True
  | x :: rest => Distinct x ∧ DistinctItems rest

def DistinctMembers : List (String × Json) → Prop
  | [] => True
  | (_, v) :: rest => Distinct v ∧ DistinctMembers rest

end

mutual

/-- The same value, but that the members of each object may come in another order. -/
inductive Reorders : Json → Json → Prop
  | null : Reorders .null .null
  | bool (b : Bool) : Reorders (.bool b) (.bool b)
  | int (n : Int) : Reorders (.int n) (.int n)
  | string (s : String) : Reorders (.string s) (.string s)
  | array {xs ys : List Json} : ReordersItems xs ys → Reorders (.array xs) (.array ys)
  | object {ms ns os : List (String × Json)} : ReordersMembers ms ns → ns.Perm os → Reorders (.object ms) (.object os)

inductive ReordersItems : List Json → List Json → Prop
  | nil : ReordersItems [] []
  | cons {x y : Json} {xs ys : List Json} : Reorders x y → ReordersItems xs ys → ReordersItems (x :: xs) (y :: ys)

/-- The same keys in the same order, with values that may be reordered within. -/
inductive ReordersMembers : List (String × Json) → List (String × Json) → Prop
  | nil : ReordersMembers [] []
  | cons {k : String} {v w : Json} {ms ns : List (String × Json)} : Reorders v w → ReordersMembers ms ns →
    ReordersMembers ((k, v) :: ms) ((k, w) :: ns)

end

/-! ### Sorting -/

/-- The order of members by their keys. -/
def keysLe (a b : String × Json) : Bool := decide (a.1 ≤ b.1)

theorem sortMembers_eq_map : ∀ ms : List (String × Json), sortMembers ms = ms.map fun m => (m.1, sortKeys m.2)
  | [] => rfl
  | (k, v) :: ms => by rw [sortMembers, sortMembers_eq_map ms, List.map_cons]

theorem keys_sortMembers (ms : List (String × Json)) : (sortMembers ms).map (·.1) = ms.map (·.1) := by
  rw [sortMembers_eq_map, List.map_map]
  rfl

theorem pairwise_mergeSort_keysLe (ms : List (String × Json)) :
    (ms.mergeSort keysLe).Pairwise fun a b => keysLe a b = true := by
  refine List.pairwise_mergeSort (fun a b c hab hbc => ?_) (fun a b => ?_) ms
  · simp only [keysLe, decide_eq_true_eq] at hab hbc ⊢
    exact String.le_trans hab hbc
  · simp only [keysLe, Bool.or_eq_true, decide_eq_true_eq]
    exact String.le_total a.1 b.1

/-- With distinct keys there is one sorted order. -/
theorem mergeSort_keysLe_of_perm {ms ns : List (String × Json)} (h : ms.Perm ns) (hkeys : (ms.map (·.1)).Nodup) :
    ms.mergeSort keysLe = ns.mergeSort keysLe := by
  have hsorted := ((List.mergeSort_perm ms keysLe).trans h).trans (List.mergeSort_perm ns keysLe).symm
  refine hsorted.eq_of_pairwise (fun a b ha hb hab hba => ?_) (pairwise_mergeSort_keysLe ms)
    (pairwise_mergeSort_keysLe ns)
  simp only [keysLe, decide_eq_true_eq] at hab hba
  exact List.inj_on_of_nodup_map hkeys (List.mem_mergeSort.mp ha) (h.mem_iff.mpr (List.mem_mergeSort.mp hb))
    (String.le_antisymm hab hba)

theorem sortKeys_object (ms : List (String × Json)) :
    sortKeys (.object ms) = .object ((sortMembers ms).mergeSort keysLe) := rfl

/-- Members that sort to a rearrangement of others are, but for what is within them, a rearrangement of these. -/
theorem exists_perm_of_sortMembers {ls : List (String × Json)} {ns : List (String × Json)}
    (h : ls.Perm (sortMembers ns)) : ∃ os, os.Perm ns ∧ ls = sortMembers os := by
  have hpointwise : List.Forall₂ (fun l n => l = (n.1, sortKeys n.2)) (sortMembers ns) ns := by
    rw [sortMembers_eq_map, List.forall₂_map_left_iff, List.forall₂_same]
    exact fun _ _ => rfl
  obtain ⟨os, hos, hperm⟩ := List.perm_comp_forall₂ h hpointwise
  refine ⟨os, hperm, ?_⟩
  rw [sortMembers_eq_map, ← List.forall₂_eq_eq_eq, List.forall₂_map_right_iff]
  exact hos

mutual

/-- Sorting the members reorders them and does nothing else. -/
theorem reorders_sortKeys : ∀ v : Json, v.Reorders v.sortKeys
  | .null => .null
  | .bool b => .bool b
  | .int n => .int n
  | .string s => .string s
  | .array xs => .array (reorders_sortItems xs)
  | .object ms => .object (reorders_sortMembers ms) (List.mergeSort_perm (sortMembers ms) keysLe).symm

theorem reorders_sortItems : ∀ xs : List Json, ReordersItems xs (sortItems xs)
  | [] => .nil
  | x :: xs => .cons (reorders_sortKeys x) (reorders_sortItems xs)

theorem reorders_sortMembers : ∀ ms : List (String × Json), ReordersMembers ms (sortMembers ms)
  | [] => .nil
  | (_, v) :: ms => .cons (reorders_sortKeys v) (reorders_sortMembers ms)

end

mutual

/-- Values that sort alike differ in nothing but the order of members. -/
theorem reorders_of_sortKeys : ∀ {v w : Json}, v.sortKeys = w.sortKeys → v.Reorders w
  | v, w, h => by
    match v, w with
    | .null, .null => exact .null
    | .bool a, .bool b =>
      cases h
      exact .bool a
    | .int m, .int n =>
      cases h
      exact .int m
    | .string s, .string t =>
      cases h
      exact .string s
    | .array xs, .array ys => exact .array (reorders_of_sortItems (Json.array.inj h))
    | .object ms, .object os =>
      have hsorted : (sortMembers ms).mergeSort keysLe = (sortMembers os).mergeSort keysLe := Json.object.inj h
      have hperm : (sortMembers ms).Perm (sortMembers os) :=
        (List.mergeSort_perm _ keysLe).symm.trans (hsorted ▸ List.mergeSort_perm _ keysLe)
      obtain ⟨ns, hns, hms⟩ := exists_perm_of_sortMembers hperm
      exact .object (reorders_of_sortMembers hms) hns

theorem reorders_of_sortItems : ∀ {xs ys : List Json}, sortItems xs = sortItems ys → ReordersItems xs ys
  | [], [], _ => .nil
  | x :: xs, y :: ys, h => by
    rw [sortItems, sortItems, List.cons.injEq] at h
    exact .cons (reorders_of_sortKeys h.1) (reorders_of_sortItems h.2)

theorem reorders_of_sortMembers : ∀ {ms ns : List (String × Json)}, sortMembers ms = sortMembers ns →
    ReordersMembers ms ns
  | [], [], _ => .nil
  | (k, v) :: ms, (l, w) :: ns, h => by
    rw [sortMembers, sortMembers, List.cons.injEq, Prod.mk.injEq] at h
    obtain ⟨⟨rfl, hv⟩, hms⟩ := h
    exact .cons (reorders_of_sortKeys hv) (reorders_of_sortMembers hms)

end

mutual

/-- Without a key that comes twice, sorting forgets in which order the members came. -/
theorem sortKeys_of_reorders : ∀ {v w : Json}, v.Distinct → v.Reorders w → v.sortKeys = w.sortKeys
  | .null, _, _, .null => rfl
  | .bool _, _, _, .bool _ => rfl
  | .int _, _, _, .int _ => rfl
  | .string _, _, _, .string _ => rfl
  | .array _, _, hdistinct, .array hitems => congrArg Json.array (sortItems_of_reorders hdistinct hitems)
  | .object ms, .object os, hdistinct, @Reorders.object _ ns _ hmembers hperm => by
    obtain ⟨hkeys, hwithin⟩ := hdistinct
    have hms : sortMembers ms = sortMembers ns := sortMembers_of_reorders hwithin hmembers
    have hns : (sortMembers ns).Perm (sortMembers os) := by
      rw [sortMembers_eq_map, sortMembers_eq_map]
      exact hperm.map _
    rw [← keys_sortMembers, hms] at hkeys
    rw [sortKeys_object, sortKeys_object, hms, mergeSort_keysLe_of_perm hns hkeys]

theorem sortItems_of_reorders : ∀ {xs ys : List Json}, DistinctItems xs → ReordersItems xs ys →
    sortItems xs = sortItems ys
  | [], _, _, .nil => rfl
  | x :: xs, _, hdistinct, .cons hfirst hrest => by
    rw [sortItems, sortItems, sortKeys_of_reorders hdistinct.1 hfirst, sortItems_of_reorders hdistinct.2 hrest]

theorem sortMembers_of_reorders : ∀ {ms ns : List (String × Json)}, DistinctMembers ms → ReordersMembers ms ns →
    sortMembers ms = sortMembers ns
  | [], _, _, .nil => rfl
  | (_, v) :: ms, _, hdistinct, .cons hfirst hrest => by
    rw [sortMembers, sortMembers, sortKeys_of_reorders hdistinct.1 hfirst, sortMembers_of_reorders hdistinct.2 hrest]

end

/-! ### Limits -/

theorem membersDepth_of_perm {ms ns : List (String × Json)} (h : ms.Perm ns) : membersDepth ms = membersDepth ns := by
  induction h with
  | nil => rfl
  | cons m _ ih => rw [membersDepth, membersDepth, ih]
  | swap m n ms => rw [membersDepth, membersDepth, membersDepth, membersDepth, Nat.max_left_comm]
  | trans _ _ ih ih' => exact ih.trans ih'

theorem membersIntegers_of_perm {ms ns : List (String × Json)} (h : ms.Perm ns) :
    (membersIntegers ms).Perm (membersIntegers ns) := by
  induction h with
  | nil => exact .refl _
  | cons m _ ih => exact ih.append_left m.2.integers
  | swap m n ms => exact List.perm_append_comm_assoc n.2.integers m.2.integers (membersIntegers ms)
  | trans _ _ ih ih' => exact ih.trans ih'

mutual

/-- The order of members changes neither the number of levels nor the integers. -/
theorem Reorders.limits : ∀ {v w : Json}, v.Reorders w → v.depth = w.depth ∧ v.integers.Perm w.integers
  | _, _, .null => ⟨rfl, .refl _⟩
  | _, _, .bool _ => ⟨rfl, .refl _⟩
  | _, _, .int _ => ⟨rfl, .refl _⟩
  | _, _, .string _ => ⟨rfl, .refl _⟩
  | .array _, _, .array hitems => by
    obtain ⟨hdepth, hintegers⟩ := hitems.limits
    exact ⟨congrArg (· + 1) hdepth, hintegers⟩
  | .object _, _, .object hmembers hperm => by
    obtain ⟨hdepth, hintegers⟩ := hmembers.limits
    exact ⟨congrArg (· + 1) (hdepth.trans (membersDepth_of_perm hperm)), hintegers.trans (membersIntegers_of_perm hperm)⟩

theorem ReordersItems.limits : ∀ {xs ys : List Json}, ReordersItems xs ys →
    itemsDepth xs = itemsDepth ys ∧ (itemsIntegers xs).Perm (itemsIntegers ys)
  | [], _, .nil => ⟨rfl, .refl _⟩
  | x :: xs, _, .cons hfirst hrest => by
    obtain ⟨hdepth, hintegers⟩ := hfirst.limits
    obtain ⟨hdepths, hrests⟩ := hrest.limits
    exact ⟨by rw [itemsDepth, itemsDepth, hdepth, hdepths], hintegers.append hrests⟩

theorem ReordersMembers.limits : ∀ {ms ns : List (String × Json)}, ReordersMembers ms ns →
    membersDepth ms = membersDepth ns ∧ (membersIntegers ms).Perm (membersIntegers ns)
  | [], _, .nil => ⟨rfl, .refl _⟩
  | (_, v) :: ms, _, .cons hfirst hrest => by
    obtain ⟨hdepth, hintegers⟩ := hfirst.limits
    obtain ⟨hdepths, hrests⟩ := hrest.limits
    exact ⟨by rw [membersDepth, membersDepth, hdepth, hdepths], hintegers.append hrests⟩

end

/-- What is looked through before a value is written has its limits, whether its members are sorted or not. -/
theorem limits_sorted (sorted : Bool) (v : Json) : (if sorted then v.sortKeys else v).depth = v.depth ∧
    (if sorted then v.sortKeys else v).integers.Perm v.integers := by
  cases sorted with
  | false => exact ⟨rfl, .refl _⟩
  | true =>
    obtain ⟨hdepth, hintegers⟩ := v.reorders_sortKeys.limits
    exact ⟨hdepth.symm, hintegers.symm⟩

section
variable {room : Nat} {sorted : Bool} {v : Json} {text : String} {e : WriteError}

/-- A value is written exactly if it keeps to the limits, and then as its text. -/
theorem dump_eq_ok : v.dump room sorted = .ok text ↔ Fits room v.depth v.integers ∧ v.write sorted = text := by
  obtain ⟨hdepth, hintegers⟩ := v.limits_sorted sorted
  have hfits : obstacle? room (if sorted then v.sortKeys else v) = none ↔ Fits room v.depth v.integers := by
    rw [obstacle?_eq_none, Fits, Fits, hdepth]
    simp only [hintegers.mem_iff]
  rw [← hfits, dump]
  cases obstacle? room (if sorted then v.sortKeys else v) <;> simp

end

/-! ### Texts -/

/-- A list in a list, and so on. -/
def nested : Nat → Json
  | 0 => .array []
  | n + 1 => .array [nested n]

end FormDirectives.Json
