import FormDirectives.Config.Read
import FormDirectives.Proofs.Data.Faults

/-! Validation of configurations. Every entry is read by itself, so what is wrong with a configuration is what is wrong
    with its entries, and it is accepted if that is nothing. An accepted configuration, written out as data, is read as
    itself. -/

namespace FormDirectives
open Data

/-! ### Entries -/

namespace Setting
variable {name : String} {value : Data} {e : Data × Data} {f : Fault}

/-- What is wrong with an entry of a configuration, and where: its key or its name, a flag that is no truth value, or
    a table of datasources that is none, or that has a key, a list of options or an option which is none. -/
inductive Amiss : Data × Data → Fault → Prop
  | key {key value : Data} : (∀ name, key ≠ .text name) → Amiss (key, value) ⟨[key.step], .invalidKey⟩
  | unknown {name : String} {value : Data} : name ∉ ["strict", "escape", "datasources"] →
    Amiss (.text name, value) ⟨[.name name], .extraForbidden⟩
  | flag {name : String} {value : Data} : name ∈ ["strict", "escape"] → (∀ b, ¬ value.IsTruth b) →
    Amiss (.text name, value) ⟨[.name name], value.truthProblem⟩
  | table {value : Data} : (∀ sources, value ≠ .map sources) →
    Amiss (.text "datasources", value) ⟨[.name "datasources"], .tableType⟩
  | source {sources : List (Data × Data)} {key value : Data} : (key, value) ∈ sources → (∀ s, ¬ key.IsText s) →
    Amiss (.text "datasources", .map sources) ⟨[.name "datasources", key.step, .name "[key]"], key.textProblem⟩
  | options {sources : List (Data × Data)} {key value : Data} : (key, value) ∈ sources → value.items? = none →
    Amiss (.text "datasources", .map sources) ⟨[.name "datasources", key.step], .listType⟩
  | option {sources : List (Data × Data)} {key value item : Data} {items : List Data} {i : Nat} :
    (key, value) ∈ sources → value.items? = some items → items[i]? = some item → (∀ s, ¬ item.IsText s) →
    Amiss (.text "datasources", .map sources) ⟨[.name "datasources", key.step, .index i], item.textProblem⟩

theorem ofMember_flag (h : name ∈ ["strict", "escape"]) (value : Data) :
    ∃ set, ofMember name value = set <$> value.readBool := by
  simp only [List.mem_cons, List.not_mem_nil, or_false] at h
  rcases h with rfl | rfl
  · exact ⟨strict, rfl⟩
  · exact ⟨escape, rfl⟩

theorem ofMember_datasources (value : Data) :
    ofMember "datasources" value = datasources <$> value.readTable (readList readString) := rfl

theorem ofMember_unknown (h : name ∉ ["strict", "escape", "datasources"]) (value : Data) :
    ofMember name value = .fail .extraForbidden := by
  simp only [List.mem_cons, List.not_mem_nil, or_false, not_or] at h
  unfold ofMember
  split
  · exact absurd rfl h.1
  · exact absurd rfl h.2.1
  · exact absurd rfl h.2.2
  · rfl

theorem name_cases (name : String) : name ∈ ["strict", "escape"] ∨ name = "datasources" ∨
    name ∉ ["strict", "escape", "datasources"] := by
  simp only [List.mem_cons, List.not_mem_nil, or_false]
  tauto

theorem ofEntry_of_not_text {key : Data} (h : ∀ name, key ≠ .text name) (value : Data) :
    ofEntry (key, value) = Read.under key.step (.fail .invalidKey) := by
  cases key with
  | text name => exact absurd rfl (h name)
  | _ => rfl

theorem faults_ofEntry_text (name : String) (value : Data) : (ofEntry (.text name, value)).faults =
    (ofMember name value).faults.map (Fault.under (.name name)) := Read.faults_under _ _

theorem head_of_mem_faults : ∀ f ∈ (ofEntry e).faults, f.place.head? = some e.1.step := by
  rw [ofEntry, Read.faults_under]
  exact Read.head_of_mem_map_under

theorem blames_ofEntry (e : Data × Data) : (ofEntry e).Blames := by
  obtain ⟨key, value⟩ := e
  by_cases hkey : ∃ name, key = .text name
  · obtain ⟨name, rfl⟩ := hkey
    refine Read.Blames.under (r := ofMember name value) ?_ _
    rcases name_cases name with hflag | rfl | hunknown
    · obtain ⟨set, hset⟩ := ofMember_flag hflag value
      exact hset ▸ value.decides_readBool.blames.map set
    · exact (blames_readTable blames_texts value).map datasources
    · exact ofMember_unknown hunknown value ▸ Read.blames_fail _
  · rw [not_exists] at hkey
    exact ofEntry_of_not_text hkey value ▸ (Read.blames_fail _).under _

theorem nodup_faults_ofEntry (h : ∀ sources, e.2 = .map sources → KeysApart sources) : (ofEntry e).faults.Nodup := by
  obtain ⟨key, value⟩ := e
  by_cases hkey : ∃ name, key = .text name
  · obtain ⟨name, rfl⟩ := hkey
    rw [faults_ofEntry_text]
    refine List.Nodup.map (Fault.under_injective _) ?_
    rcases name_cases name with hflag | rfl | hunknown
    · obtain ⟨set, hset⟩ := ofMember_flag hflag value
      rw [hset, Read.faults_map]
      exact value.decides_readBool.nodup
    · rw [ofMember_datasources, Read.faults_map]
      exact value.nodup_faults_readTable h
    · rw [ofMember_unknown hunknown]
      exact List.nodup_singleton _
  · rw [not_exists] at hkey
    rw [ofEntry_of_not_text hkey]
    exact List.nodup_singleton _

theorem mem_faults_ofEntry_text : f ∈ (ofEntry (.text name, value)).faults ↔
    ∃ g ∈ (ofMember name value).faults, g.under (.name name) = f := by
  rw [faults_ofEntry_text, List.mem_map]

theorem amiss_of_mem_faults (h : f ∈ (ofEntry e).faults) : Amiss e f := by
  obtain ⟨key, value⟩ := e
  by_cases hkey : ∃ name, key = .text name
  · obtain ⟨name, rfl⟩ := hkey
    obtain ⟨g, hg, rfl⟩ := mem_faults_ofEntry_text.mp h
    rcases name_cases name with hflag | rfl | hunknown
    · obtain ⟨set, hset⟩ := ofMember_flag hflag value
      rw [hset, Read.faults_map, value.decides_readBool.mem_faults] at hg
      obtain ⟨hnone, rfl⟩ := hg
      exact .flag hflag hnone
    · rw [ofMember_datasources, Read.faults_map, mem_faults_readTable] at hg
      rcases hg with ⟨hnone, rfl⟩ | ⟨sources, key, options, g, rfl, hmem, hg, rfl⟩
      · exact .table hnone
      · rcases mem_entryFaults.mp hg with ⟨hnone, rfl⟩ | hg
        · exact .source hmem hnone
        · rcases mem_faults_texts.mp hg with ⟨hnone, rfl⟩ | ⟨items, i, item, hitems, hitem, hnone, rfl⟩
          · exact .options hmem hnone
          · exact .option hmem hitems hitem hnone
    · rw [ofMember_unknown hunknown, Read.faults_fail, List.mem_singleton] at hg
      exact hg ▸ .unknown hunknown
  · rw [not_exists] at hkey
    rw [ofEntry_of_not_text hkey, Read.faults_under, Read.faults_fail, List.map_singleton, List.mem_singleton] at h
    exact h ▸ .key hkey

theorem mem_faults_of_entryFaults {sources : List (Data × Data)} {key options : Data} {g : Fault}
    (hmem : (key, options) ∈ sources) (hg : g ∈ entryFaults (key, options)) :
    (g.under key.step).under (.name "datasources") ∈ (ofEntry (.text "datasources", .map sources)).faults := by
  refine mem_faults_ofEntry_text.mpr ⟨_, ?_, rfl⟩
  rw [ofMember_datasources, Read.faults_map]
  exact mem_faults_readTable.mpr (Or.inr ⟨sources, key, options, g, rfl, hmem, hg, rfl⟩)

theorem mem_faults_of_amiss (h : Amiss e f) : f ∈ (ofEntry e).faults := by
  cases h with
  | key hkey =>
    rw [ofEntry_of_not_text hkey]
    exact List.mem_singleton_self _
  | unknown hunknown =>
    refine mem_faults_ofEntry_text.mpr ⟨⟨[], .extraForbidden⟩, ?_, rfl⟩
    rw [ofMember_unknown hunknown]
    exact List.mem_singleton_self _
  | @flag name value hflag hnone =>
    refine mem_faults_ofEntry_text.mpr ⟨⟨[], value.truthProblem⟩, ?_, rfl⟩
    obtain ⟨set, hset⟩ := ofMember_flag hflag value
    rw [hset, Read.faults_map]
    exact value.decides_readBool.mem_faults.mpr ⟨hnone, rfl⟩
  | table hnone =>
    refine mem_faults_ofEntry_text.mpr ⟨⟨[], .tableType⟩, ?_, rfl⟩
    rw [ofMember_datasources, Read.faults_map]
    exact mem_faults_readTable.mpr (Or.inl ⟨hnone, rfl⟩)
  | source hmem hnone =>
    exact mem_faults_of_entryFaults hmem (mem_entryFaults.mpr (Or.inl ⟨hnone, rfl⟩))
  | options hmem hnone =>
    exact mem_faults_of_entryFaults hmem (mem_entryFaults.mpr (Or.inr (mem_faults_texts.mpr (Or.inl ⟨hnone, rfl⟩))))
  | option hmem hitems hitem hnone =>
    have htexts := mem_faults_texts.mpr (Or.inr ⟨_, _, _, hitems, hitem, hnone, rfl⟩)
    exact mem_faults_of_entryFaults hmem (mem_entryFaults.mpr (Or.inr htexts))

/-- The faults of an entry are all that is amiss with it. -/
theorem mem_faults_ofEntry : f ∈ (ofEntry e).faults ↔ Amiss e f := ⟨amiss_of_mem_faults, mem_faults_of_amiss⟩

end Setting

/-! ### Configurations -/

namespace Config
variable {entries : List (Data × Data)} {f : Fault}

theorem ofData_map (entries : List (Data × Data)) : ofData (.map entries) =
    (fun settings => settings.foldl Setting.apply {}) <$> Read.all (entries.map Setting.ofEntry) := by
  rw [ofData]
  cases Read.all (entries.map Setting.ofEntry) <;> rfl

theorem faults_ofData (entries : List (Data × Data)) :
    (ofData (.map entries)).faults = entries.flatMap fun e => (Setting.ofEntry e).faults := by
  rw [ofData_map, Read.faults_map, Read.faults_all, List.flatMap_map]

theorem faults_ofData_singleton (e : Data × Data) : (ofData (.map [e])).faults = (Setting.ofEntry e).faults := by
  rw [faults_ofData, List.flatMap_singleton]

theorem blames_ofData (d : Data) : (ofData d).Blames := by
  cases d with
  | map entries =>
    rw [ofData_map]
    refine (Read.blames_all fun r hr => ?_).map _
    obtain ⟨e, -, rfl⟩ := List.mem_map.mp hr
    exact Setting.blames_ofEntry e
  | _ => exact Read.blames_fail _

theorem exists_ofData_iff (entries : List (Data × Data)) :
    (∃ c, ofData (.map entries) = .ok c) ↔ ∀ e ∈ entries, (Setting.ofEntry e).faults = [] := by
  rw [(blames_ofData _).exists_ok_iff, faults_ofData, List.flatMap_eq_nil_iff]

/-- The options as data. -/
def toData (c : Config) : Data :=
  .map [(.text "strict", .bool c.strict), (.text "escape", .bool c.escape),
    (.text "datasources", .map (c.datasources.entries.map fun e => (.text e.1, .list (e.2.map .text))))]

theorem readTable_sources (sources : OrderedMap String (List String)) :
    readTable (readList readString) (.map (sources.entries.map fun e => (.text e.1, .list (e.2.map .text)))) =
      .ok sources := readTable_map_entries _ readTexts_map_text sources

/-- The options are read from their own data. -/
theorem ofData_toData (c : Config) : ofData c.toData = .ok c := by
  have hsettings : [(Data.text "strict", Data.bool c.strict), (.text "escape", .bool c.escape),
      (.text "datasources", .map (c.datasources.entries.map fun e => (.text e.1, .list (e.2.map .text))))].map
      Setting.ofEntry = [Setting.strict c.strict, .escape c.escape, .datasources c.datasources].map Except.ok := by
    simp only [List.map_cons, List.map_nil, Setting.ofEntry, Setting.ofMember, readTable_sources]
    rfl
  rw [toData, ofData_map, hsettings, Read.all_map_ok]
  rfl

end Config

/-! ### Objects -/

namespace Json

theorem mem_membersToData {key : String} {d : Data} : ∀ {members : List (String × Json)},
    (key, d) ∈ membersToData members → ∃ v : Json, d = v.toData
  | (_, v) :: members, h => by
    rw [membersToData, List.mem_cons] at h
    rcases h with heq | h
    · exact ⟨v, congrArg Prod.snd heq⟩
    · exact mem_membersToData h

theorem exists_members {v : Json} {entries : List (Data × Data)} (h : v.toData = .map entries) :
    ∃ members : OrderedMap String Data, entries = members.entries.map (fun m => (.text m.1, m.2)) ∧
      ∀ m ∈ members.entries, ∃ v : Json, m.2 = v.toData := by
  cases v with
  | object members =>
    rw [toData] at h
    exact ⟨_, (Data.map.inj h).symm, fun m hm => mem_membersToData (OrderedMap.mem_ofList hm)⟩
  | _ => simp [toData] at h

/-- The members of an object have different places. -/
theorem keysApart_of_toData {v : Json} {entries : List (Data × Data)} (h : v.toData = .map entries) :
    KeysApart entries := by
  obtain ⟨members, rfl, -⟩ := exists_members h
  have hsteps : (members.entries.map fun m => (Data.text m.1, m.2)).map (fun e => e.1.step) =
      (members.entries.map (·.1)).map Step.name := by
    rw [List.map_map, List.map_map]
    rfl
  rw [KeysApart, hsteps]
  exact members.nodup.map fun _ _ => Step.name.inj

theorem keysApart_of_member {v : Json} {entries : List (Data × Data)} (h : v.toData = .map entries) :
    ∀ e ∈ entries, ∀ sources, e.2 = .map sources → KeysApart sources := by
  obtain ⟨members, rfl, hvalues⟩ := exists_members h
  intro e he sources hsources
  obtain ⟨m, hm, rfl⟩ := List.mem_map.mp he
  obtain ⟨w, hw⟩ := hvalues m hm
  exact keysApart_of_toData (hw.symm.trans hsources)

end Json

/-- The faults of a configuration are those of its entries, each read alone, and no fault comes twice; those of an entry
    are all that is amiss with it. So a configuration is accepted exactly if nothing is amiss with any entry, it is
    accepted once the entries are taken out that its faults begin with, and what is accepted is read from its own data
    as it is. -/
theorem faults_of_entries (entries : List (Data × Data)) (hkeys : KeysApart entries)
    (hsources : ∀ e ∈ entries, ∀ sources, e.2 = .map sources → KeysApart sources) :
    let faults (es : List (Data × Data)) := (Config.ofData (.map es)).faults
    faults entries = entries.flatMap (fun e => faults [e]) ∧ (faults entries).Nodup ∧
    (∀ e f, f ∈ faults [e] ↔ Setting.Amiss e f) ∧
    ((∃ c, Config.ofData (.map entries) = .ok c) ↔ ∀ e ∈ entries, faults [e] = []) ∧
    (∃ c, Config.ofData (.map (entries.filter fun e => ∀ f ∈ faults entries, f.place.head? ≠ some e.1.step)) = .ok c) ∧
    ∀ c, Config.ofData (.map entries) = .ok c → Config.ofData c.toData = .ok c := by
  intro faults
  simp only [faults, Config.faults_ofData_singleton]
  refine ⟨Config.faults_ofData entries, ?_, fun e f => Setting.mem_faults_ofEntry, Config.exists_ofData_iff entries, ?_,
    fun c _ => c.ofData_toData⟩
  · rw [Config.faults_ofData]
    exact Read.nodup_flatMap_of_head hkeys (fun e he => Setting.nodup_faults_ofEntry (hsources e he)) fun e =>
      Setting.head_of_mem_faults
  · refine (Config.exists_ofData_iff _).mpr fun e he => ?_
    rw [List.mem_filter, decide_eq_true_iff, Config.faults_ofData] at he
    obtain ⟨hmem, hkept⟩ := he
    refine List.eq_nil_iff_forall_not_mem.mpr fun f hf => ?_
    exact hkept f (List.mem_flatMap.mpr ⟨e, hmem, hf⟩) (Setting.head_of_mem_faults f hf)

/-- An object with a doubtful flag, a member that is no option, and datasources that are not all lists of texts; the
    member that is left has a flag in capitals. -/
theorem doubtful_configuration_faults :
    let data := Json.object [("strict", .string "maybe"), ("colour", .int 1), ("escape", .string "ON"),
      ("datasources", .object [("/sizes", .array [.string "S", .int 2, .null]), ("/towns", .string "Ely")])]
    ∃ entries, data.toData = .map entries ∧ KeysApart entries ∧
      (∀ e ∈ entries, ∀ sources, e.2 = .map sources → KeysApart sources) ∧
      (Config.ofData data.toData).faults = [⟨[.name "strict"], .boolParsing⟩, ⟨[.name "colour"], .extraForbidden⟩,
        ⟨[.name "datasources", .name "/sizes", .index 1], .stringType⟩,
        ⟨[.name "datasources", .name "/sizes", .index 2], .stringType⟩,
        ⟨[.name "datasources", .name "/towns"], .listType⟩] ∧
      ∃ c, Config.ofData (.map [(.text "escape", .text "ON")]) = .ok c := by
  intro data
  have hdata : data.toData = .map _ := rfl
  have hkeys := Json.keysApart_of_toData hdata
  have hsources := Json.keysApart_of_member hdata
  obtain ⟨-, -, -, -, hleft, -⟩ := faults_of_entries _ hkeys hsources
  refine ⟨_, hdata, hkeys, hsources, ?_, hleft⟩
  decide +kernel

end FormDirectives
