/-! A finite map that remembers in which order its keys first came. Putting a key again keeps its place
    and replaces its value, so the entries never hold a key twice. -/

namespace FormDirectives

structure OrderedMap (κ α : Type) where
  entries : List (κ × α)
  nodup : (entries.map (·.1)).Nodup
  deriving DecidableEq, Repr

namespace OrderedMap
variable {κ α β : Type}

def empty : OrderedMap κ α := ⟨[], List.nodup_nil⟩

instance : EmptyCollection (OrderedMap κ α) := ⟨empty⟩

instance : Inhabited (OrderedMap κ α) := ⟨empty⟩

def keys (m : OrderedMap κ α) : List κ := m.entries.map (·.1)

variable [DecidableEq κ]

/-! ### Putting a key -/

def put (k : κ) (v : α) : List (κ × α) → List (κ × α)
  | [] => [(k, v)]
  | e :: rest => if e.1 = k then (k, v) :: rest else e :: put k v rest

theorem keys_put (k : κ) (v : α) : ∀ es : List (κ × α),
    (put k v es).map (·.1) = if k ∈ es.map (·.1) then es.map (·.1) else es.map (·.1) ++ [k]
  | [] => by simp [put]
  | e :: rest => by
    by_cases h : e.1 = k
    · simp [put, h]
    · have h' : ¬k = e.1 := fun hk => h hk.symm
      have ih := keys_put k v rest
      by_cases hk : k ∈ rest.map (·.1)
      · simp only [put, h, if_false, List.map_cons, ih, hk, if_true, List.mem_cons, or_true]
      · simp only [put, h, if_false, List.map_cons, ih, hk, List.mem_cons, h', or_self, List.cons_append]

theorem nodup_put (k : κ) (v : α) {es : List (κ × α)} (h : (es.map (·.1)).Nodup) :
    ((put k v es).map (·.1)).Nodup := by
  rw [keys_put]
  split
  · exact h
  · next hk =>
    refine List.nodup_append.mpr ⟨h, by simp, fun a ha b hb hab => hk ?_⟩
    rw [List.mem_singleton] at hb
    exact hb ▸ hab ▸ ha

def insert (m : OrderedMap κ α) (k : κ) (v : α) : OrderedMap κ α := ⟨put k v m.entries, nodup_put k v m.nodup⟩

def ofList (es : List (κ × α)) : OrderedMap κ α := es.foldl (fun m e => m.insert e.1 e.2) empty

/-- What is put is all that comes to the entries. -/
theorem mem_put {k : κ} {v : α} {e : κ × α} : ∀ {es : List (κ × α)}, e ∈ put k v es → e = (k, v) ∨ e ∈ es
  | [], h => Or.inl (List.mem_singleton.mp h)
  | d :: rest, h => by
    rw [put] at h
    split at h
    · rcases List.mem_cons.mp h with h | h
      · exact Or.inl h
      · exact Or.inr (List.mem_cons_of_mem d h)
    · rcases List.mem_cons.mp h with h | h
      · exact Or.inr (h ▸ List.mem_cons_self)
      · exact (mem_put h).imp_right (List.mem_cons_of_mem d)

theorem mem_ofList {e : κ × α} {es : List (κ × α)} (h : e ∈ (ofList es).entries) : e ∈ es := by
  suffices hfold : ∀ (es : List (κ × α)) (m : OrderedMap κ α),
      e ∈ (es.foldl (fun m e => m.insert e.1 e.2) m).entries → e ∈ m.entries ∨ e ∈ es from
    (hfold es empty h).resolve_left List.not_mem_nil
  intro es
  induction es with
  | nil => exact fun m h => Or.inl h
  | cons d rest ih =>
    intro m h
    rcases ih (m.insert d.1 d.2) h with h | h
    · exact (mem_put h).elim (fun h => Or.inr (h ▸ List.mem_cons_self)) Or.inl
    · exact Or.inr (List.mem_cons_of_mem d h)

/-! ### Looking up -/

def get? (m : OrderedMap κ α) (k : κ) : Option α := m.entries.lookup k

def getD (m : OrderedMap κ α) (k : κ) (fallback : α) : α := (m.get? k).getD fallback

def contains (m : OrderedMap κ α) (k : κ) : Bool := (m.get? k).isSome

theorem contains_iff {m : OrderedMap κ α} {k : κ} : m.contains k = true ↔ k ∈ m.keys := by
  rw [contains, get?, List.lookup_isSome_iff, keys, List.mem_map]
  simp only [beq_iff_eq, @eq_comm _ k]

theorem keys_insert (m : OrderedMap κ α) (k : κ) (v : α) :
    (m.insert k v).keys = if k ∈ m.keys then m.keys else m.keys ++ [k] := keys_put k v m.entries

theorem lookup_cons (e : κ × α) (es : List (κ × α)) (j : κ) :
    (e :: es).lookup j = if j = e.1 then some e.2 else es.lookup j := by
  obtain ⟨k, v⟩ := e
  rw [List.lookup_cons]
  by_cases h : j = k
  · simp [h]
  · simp [h, beq_eq_false_iff_ne.mpr h]

theorem lookup_put (k j : κ) (v : α) (es : List (κ × α)) :
    (put k v es).lookup j = if j = k then some v else es.lookup j := by
  induction es with
  | nil => simp [put, lookup_cons]
  | cons e rest ih =>
    by_cases he : e.1 = k
    · by_cases hj : j = k <;> simp [put, lookup_cons, he, hj]
    · by_cases hj : j = e.1
      · simp [put, lookup_cons, hj, he]
      · simp [put, lookup_cons, hj, he, ih]

theorem get?_insert (m : OrderedMap κ α) (k j : κ) (v : α) :
    (m.insert k v).get? j = if j = k then some v else m.get? j := lookup_put k j v m.entries

theorem lookup_of_mem {k : κ} {v : α} : ∀ {es : List (κ × α)}, (es.map (·.1)).Nodup → (k, v) ∈ es → es.lookup k = some v
  | e :: rest, hnodup, h => by
    rw [List.map_cons, List.nodup_cons] at hnodup
    rw [lookup_cons]
    rcases List.mem_cons.mp h with rfl | h
    · exact if_pos rfl
    · have hne : k ≠ e.1 := fun heq => hnodup.1 (heq ▸ List.mem_map_of_mem h)
      rw [if_neg hne, lookup_of_mem hnodup.2 h]

theorem get?_of_mem {m : OrderedMap κ α} {k : κ} {v : α} (h : (k, v) ∈ m.entries) : m.get? k = some v :=
  lookup_of_mem m.nodup h

/-! ### New keys -/

theorem put_of_notMem {k : κ} (v : α) : ∀ {es : List (κ × α)}, k ∉ es.map (·.1) → put k v es = es ++ [(k, v)]
  | [], _ => rfl
  | e :: rest, h => by
    rw [List.map_cons, List.mem_cons, not_or] at h
    rw [put, if_neg (Ne.symm h.1), put_of_notMem v h.2, List.cons_append]

/-- Entries with new keys are put behind the others, in their order. -/
theorem entries_foldl_insert : ∀ {es : List (κ × α)} {m : OrderedMap κ α}, ((m.entries ++ es).map (·.1)).Nodup →
    (es.foldl (fun m e => m.insert e.1 e.2) m).entries = m.entries ++ es
  | [], m, _ => (List.append_nil m.entries).symm
  | e :: rest, m, h => by
    have hnew : e.1 ∉ m.entries.map (·.1) := fun hmem => by
      rw [List.map_append, List.map_cons] at h
      exact (List.nodup_append.mp h).2.2 e.1 hmem e.1 List.mem_cons_self rfl
    have hentries : (m.insert e.1 e.2).entries = m.entries ++ [e] := put_of_notMem e.2 hnew
    have hrest : m.entries ++ e :: rest = (m.insert e.1 e.2).entries ++ rest := by
      rw [hentries, List.append_assoc, List.singleton_append]
    rw [hrest] at h ⊢
    exact entries_foldl_insert h

theorem entries_ofList {es : List (κ × α)} (h : (es.map (·.1)).Nodup) : (ofList es).entries = es :=
  entries_foldl_insert (m := empty) h

theorem ofList_entries (m : OrderedMap κ α) : ofList m.entries = m := by
  have hentries := entries_ofList m.nodup
  obtain ⟨entries, nodup⟩ := m
  generalize ofList entries = m at hentries
  cases m
  cases hentries
  rfl

end OrderedMap
end FormDirectives
