import FormDirectives.Config
import FormDirectives.Proofs.Entries
import FormDirectives.Proofs.Html.Fetched

/-! Registration. The registry of a configuration starts with its datasources, and each call puts the options of one
    source. What a source resolves to is what was put last; whether it is registered, and so whether a tree misses it,
    depends only on whether it was put at all. -/

namespace FormDirectives
namespace Registry
variable {r : Registry} {calls : List (String × List String)} {s : String} {values : List String}

/-! ### One call -/

theorem resolve_register (r : Registry) (source s : String) (values : List String) :
    (r.register source values).resolve s = if s = source then values else r.resolve s := by
  rw [resolve, OrderedMap.getD, register, OrderedMap.get?_insert]
  split
  · rfl
  · rfl

theorem contains_register (r : Registry) (source s : String) (values : List String) :
    (r.register source values).contains s = (decide (s = source) || r.contains s) := by
  rw [contains, OrderedMap.contains, register, OrderedMap.get?_insert]
  split
  · next h => simp [h]
  · next h => simp [h, contains, OrderedMap.contains]

/-! ### A sequence of calls -/

/-- The options of one source after the other, in the order of the calls. -/
def registerAll (r : Registry) (calls : List (String × List String)) : Registry :=
  calls.foldl (fun r c => r.register c.1 c.2) r

theorem registerAll_append (r : Registry) (before after : List (String × List String)) :
    r.registerAll (before ++ after) = (r.registerAll before).registerAll after := List.foldl_append

theorem resolve_registerAll_of_notMem : ∀ {calls : List (String × List String)} {r : Registry},
    s ∉ calls.map (·.1) → (r.registerAll calls).resolve s = r.resolve s
  | [], _, _ => rfl
  | c :: calls, r, h => by
    rw [List.map_cons, List.mem_cons, not_or] at h
    have hrest : ((r.register c.1 c.2).registerAll calls).resolve s = (r.register c.1 c.2).resolve s :=
      resolve_registerAll_of_notMem h.2
    exact hrest.trans ((resolve_register r c.1 s c.2).trans (if_neg h.1))

/-- The last call that names a source decides what it resolves to. -/
theorem resolve_registerAll_of_last {before after : List (String × List String)} (hlast : s ∉ after.map (·.1)) :
    (r.registerAll (before ++ (s, values) :: after)).resolve s = values := by
  rw [registerAll_append]
  refine (resolve_registerAll_of_notMem (r := (r.registerAll before).register s values) hlast).trans ?_
  exact (resolve_register _ s s values).trans (if_pos rfl)

theorem contains_registerAll : ∀ {calls : List (String × List String)} {r : Registry},
    (r.registerAll calls).contains s = true ↔ s ∈ calls.map (·.1) ∨ r.contains s = true
  | [], _ => (or_iff_right List.not_mem_nil).symm
  | c :: calls, r => by
    have hrest : ((r.register c.1 c.2).registerAll calls).contains s = true ↔
        s ∈ calls.map (·.1) ∨ (r.register c.1 c.2).contains s = true := contains_registerAll
    refine hrest.trans ?_
    rw [contains_register, Bool.or_eq_true, decide_eq_true_iff, List.map_cons, List.mem_cons, or_left_comm, or_assoc]

/-- The entries are those of one map that takes what was there first and then the calls. -/
theorem entries_registerAll (r : Registry) (calls : List (String × List String)) :
    (r.registerAll calls).entries = .ofList (r.entries.entries ++ calls) := by
  have hfold : ∀ (calls : List (String × List String)) (r : Registry),
      (r.registerAll calls).entries = calls.foldl (fun m e => m.insert e.1 e.2) r.entries := by
    intro calls
    induction calls with
    | nil => exact fun _ => rfl
    | cons c calls ih => exact fun r => ih (r.register c.1 c.2)
  rw [hfold, OrderedMap.ofList, List.foldl_append]
  exact congrArg (calls.foldl _) r.entries.ofList_entries.symm

theorem firsts_registerAll (r : Registry) (calls : List (String × List String)) :
    Firsts (r.entries.keys ++ calls.map (·.1)) (r.registerAll calls).entries.keys := by
  rw [entries_registerAll, OrderedMap.keys, ← List.map_append]
  exact OrderedMap.firsts_keys_ofList _

/-! ### Missing datasources -/

theorem mem_missing {t : Tree} : s ∈ r.missing t ↔ s ∈ t.sources ∧ r.contains s = false := by
  rw [missing, List.mem_filter, Bool.not_eq_true']

theorem nodup_missing (r : Registry) (t : Tree) : (r.missing t).Nodup := (firsts_distinct _).nodup.filter _

/-- Registries with the same sources are missed the same. -/
theorem missing_congr {r' : Registry} (h : ∀ s, r.contains s = true ↔ r'.contains s = true) (t : Tree) :
    r.missing t = r'.missing t :=
  List.filter_congr fun s _ => congrArg (!·) (Bool.eq_iff_iff.mpr (h s))

theorem missing_register (r : Registry) (source : String) (values : List String) (t : Tree) :
    (r.register source values).missing t = (r.missing t).erase source := by
  rw [(r.nodup_missing t).erase_eq_filter, missing, missing, List.filter_filter]
  refine List.filter_congr fun s _ => ?_
  rw [contains_register, Bool.not_or, bne, beq_eq_decide]

theorem missing_registerAll_eq_nil {t : Tree} :
    (r.registerAll calls).missing t = [] ↔ ∀ s ∈ r.missing t, s ∈ calls.map (·.1) := by
  rw [List.eq_nil_iff_forall_not_mem]
  refine forall_congr' fun s => ?_
  rw [mem_missing, mem_missing, ← Bool.not_eq_true, ← Bool.not_eq_true, contains_registerAll]
  tauto

end Registry

/-- After any calls on the registry of a configuration, a source resolves to the options of the last call that names
    it, else to those that are configured, else to none, and it is registered if a call names it or it is configured,
    be it without options. The sources stay in the order in which they first came, the configured ones first. A tree
    misses its sources but for the registered ones, each of them once. So one more call takes at most its own source
    from these, further calls leave none exactly if they name them all, and calls that name the same sources leave the
    same. -/
theorem registered_last (config : Config) (calls : List (String × List String)) :
    let r := config.registry.registerAll calls
    (∀ before s values after, calls = before ++ (s, values) :: after → s ∉ after.map (·.1) → r.resolve s = values) ∧
    (∀ s, s ∉ calls.map (·.1) → r.resolve s = config.datasources.getD s []) ∧
    (∀ s, r.contains s = true ↔ s ∈ calls.map (·.1) ∨ s ∈ config.datasources.keys) ∧
    Firsts (config.datasources.keys ++ calls.map (·.1)) r.entries.keys ∧
    ∀ t : Tree,
      (r.missing t = t.sources.filter fun s => s ∉ calls.map (·.1) ∧ s ∉ config.datasources.keys) ∧
      (r.missing t).Nodup ∧
      (∀ source values, (r.register source values).missing t = (r.missing t).erase source) ∧
      (∀ more, (r.registerAll more).missing t = [] ↔ ∀ s ∈ r.missing t, s ∈ more.map (·.1)) ∧
      ∀ calls', (∀ s, s ∈ calls'.map (·.1) ↔ s ∈ calls.map (·.1)) →
        (config.registry.registerAll calls').missing t = r.missing t := by
  intro r
  have hcontains : ∀ s, r.contains s = true ↔ s ∈ calls.map (·.1) ∨ s ∈ config.datasources.keys := fun s =>
    Registry.contains_registerAll.trans (or_congr_right OrderedMap.contains_iff)
  refine ⟨fun before s values after hcalls hlast => ?_, fun s h => Registry.resolve_registerAll_of_notMem h, hcontains,
    Registry.firsts_registerAll config.registry calls, fun t => ⟨?_, r.nodup_missing t, fun source values => ?_, fun
    more => Registry.missing_registerAll_eq_nil, fun calls' hkeys => Registry.missing_congr (fun s => ?_) t⟩⟩
  · change (config.registry.registerAll calls).resolve s = values
    rw [hcalls]
    exact Registry.resolve_registerAll_of_last hlast
  · refine List.filter_congr fun s _ => ?_
    rw [Bool.eq_iff_iff, Bool.not_eq_true', ← Bool.not_eq_true, hcontains, not_or, decide_eq_true_iff]
  · exact r.missing_register source values t
  · rw [Registry.contains_registerAll, Registry.contains_registerAll, hkeys]

/-- Towns are registered twice, cities lose what was configured for them, and rates are configured without options. -/
theorem towns_registered_twice :
    let config : Config := { datasources := .ofList [("/rates", []), ("/cities", ["Rome"])] }
    let calls := [("/towns", ["Ely"]), ("/cities", []), ("/towns", ["Wells", "Ripon"])]
    let r := config.registry.registerAll calls
    let t := Tree.start.addAll (["/rates", "/streets", "/towns", "/roads", "/streets"].map fun source =>
      ({ element := .select "place" "Place" [] (some source) }, 0))
    (calls = calls.take 2 ++ ("/towns", ["Wells", "Ripon"]) :: [] ∧
      "/towns" ∉ ([] : List (String × List String)).map (·.1)) ∧
      r.resolve "/towns" = ["Wells", "Ripon"] ∧ r.contains "/rates" = true ∧ r.missing t = ["/streets", "/roads"] ∧
      (r.registerAll [("/roads", []), ("/streets", ["High Street"])]).missing t = [] := by
  intro config calls r t
  obtain ⟨hlast, -, hcontains, -, htree⟩ := registered_last config calls
  obtain ⟨hmissing, -, -, hall, -⟩ := htree t
  have hleft : r.missing t = ["/streets", "/roads"] := hmissing.trans (by decide)
  refine ⟨⟨rfl, List.not_mem_nil⟩, hlast (calls.take 2) _ _ [] rfl List.not_mem_nil, ?_, hleft, (hall _).mpr ?_⟩
  · exact (hcontains "/rates").mpr (by decide)
  · rw [hleft]
    decide

end FormDirectives
