import FormDirectives.Data.Read
import Mathlib.Data.List.Nodup

/-! Faults of data. A reading that fails tells all that is wrong with its parts, each under the step that leads to it,
    and it never fails without telling anything. So a value is read exactly if it has no faults, and the faults of a
    list or a table are those of its items and entries, one after the other. -/

namespace FormDirectives

namespace Fault

theorem under_injective (step : Step) : Function.Injective (under step) := by
  intro f g h
  cases f
  cases g
  cases h
  rfl

end Fault

/-! ### Readings -/

namespace Read
variable {α β : Type}

/-- All that is wrong, which is nothing if the value is read. -/
def faults : Read α → List Fault
  | .ok _ => []
  | .error fs => fs

/-- A reading that fails tells why. -/
def Blames (r : Read α) : Prop := r.faults = [] → ∃ a, r = .ok a

@[simp]
theorem faults_fail (p : Problem) : (fail p : Read α).faults = [{ place := [], problem := p }] := rfl

@[simp]
theorem faults_map (f : α → β) (r : Read α) : faults (f <$> r) = r.faults := by
  cases r <;> rfl

@[simp]
theorem faults_under (step : Step) (r : Read α) : (under step r).faults = r.faults.map (Fault.under step) := by
  cases r <;> rfl

@[simp]
theorem faults_both (r : Read α) (q : Read β) : (both r q).faults = r.faults ++ q.faults := by
  cases r <;> cases q <;> simp [both, faults]

theorem all_cons (r : Read α) (rs : List (Read α)) : all (r :: rs) = (fun p => p.1 :: p.2) <$> both r (all rs) := by
  rw [all]
  cases both r (all rs) <;> rfl

theorem faults_all : ∀ rs : List (Read α), (all rs).faults = rs.flatMap faults
  | [] => rfl
  | r :: rs => by rw [all_cons, faults_map, faults_both, faults_all rs, List.flatMap_cons]

theorem all_map_ok : ∀ as : List α, all (as.map Except.ok) = .ok as
  | [] => rfl
  | a :: as => by rw [List.map_cons, all_cons, all_map_ok as]; rfl

theorem blames_ok (a : α) : Blames (.ok a) := fun _ => ⟨a, rfl⟩

theorem blames_fail (p : Problem) : (fail p : Read α).Blames := nofun

theorem Blames.map {r : Read α} (h : r.Blames) (f : α → β) : Blames (f <$> r) := by
  intro hnone
  rw [faults_map] at hnone
  obtain ⟨a, rfl⟩ := h hnone
  exact ⟨f a, rfl⟩

theorem Blames.under {r : Read α} (h : r.Blames) (step : Step) : (under step r).Blames := by
  intro hnone
  rw [faults_under, List.map_eq_nil_iff] at hnone
  obtain ⟨a, rfl⟩ := h hnone
  exact ⟨a, rfl⟩

theorem Blames.both {r : Read α} {q : Read β} (hr : r.Blames) (hq : q.Blames) : (both r q).Blames := by
  intro hnone
  rw [faults_both, List.append_eq_nil_iff] at hnone
  obtain ⟨a, rfl⟩ := hr hnone.1
  obtain ⟨b, rfl⟩ := hq hnone.2
  exact ⟨(a, b), rfl⟩

theorem blames_all : ∀ {rs : List (Read α)}, (∀ r ∈ rs, r.Blames) → (all rs).Blames
  | [], _ => blames_ok []
  | r :: rs, h => by
    rw [all_cons]
    exact ((h r List.mem_cons_self).both (blames_all fun q hq => h q (List.mem_cons_of_mem r hq))).map _

theorem Blames.exists_ok_iff {r : Read α} (h : r.Blames) : (∃ a, r = .ok a) ↔ r.faults = [] := by
  refine ⟨?_, h⟩
  rintro ⟨a, rfl⟩
  rfl

/-- What is read is the value of which `P` holds; if there is none, then `p` is wrong and nothing else. -/
def Decides (r : Read α) (P : α → Prop) (p : Problem) : Prop :=
  (∃ a, P a ∧ r = .ok a) ∨ (∀ a, ¬ P a) ∧ r = fail p

namespace Decides
variable {r : Read α} {P : α → Prop} {p : Problem} {f : Fault}

theorem blames (h : r.Decides P p) : r.Blames := by
  rcases h with ⟨a, -, rfl⟩ | ⟨-, rfl⟩
  · exact blames_ok a
  · exact blames_fail p

theorem nodup (h : r.Decides P p) : r.faults.Nodup := by
  rcases h with ⟨a, -, rfl⟩ | ⟨-, rfl⟩
  · exact List.nodup_nil
  · exact List.nodup_singleton _

theorem mem_faults (h : r.Decides P p) : f ∈ r.faults ↔ (∀ a, ¬ P a) ∧ f = ⟨[], p⟩ := by
  rcases h with ⟨a, ha, rfl⟩ | ⟨hnone, rfl⟩
  · exact ⟨nofun, fun h => absurd ha (h.1 a)⟩
  · rw [faults_fail, List.mem_singleton]
    exact (and_iff_right hnone).symm

end Decides

/-- Faults that begin with different steps differ. -/
theorem nodup_flatMap_of_head {l : List α} {step : α → Step} {fs : α → List Fault} (hsteps : (l.map step).Nodup)
    (hfs : ∀ a ∈ l, (fs a).Nodup) (hhead : ∀ a, ∀ f ∈ fs a, f.place.head? = some (step a)) : (l.flatMap fs).Nodup := by
  refine List.nodup_flatMap.mpr ⟨hfs, ?_⟩
  rw [List.nodup_iff_pairwise_ne, List.pairwise_map] at hsteps
  refine hsteps.imp fun {a b} hne f ha hb => hne ?_
  exact Option.some.inj ((hhead a f ha).symm.trans (hhead b f hb))

theorem head_of_mem_map_under {step : Step} {fs : List Fault} : ∀ f ∈ fs.map (Fault.under step),
    f.place.head? = some step := by
  intro f hf
  obtain ⟨g, -, rfl⟩ := List.mem_map.mp hf
  rfl

theorem nodup_flatMap_under {l : List α} {step : α → Step} {fs : α → List Fault} (hsteps : (l.map step).Nodup)
    (hfs : ∀ a ∈ l, (fs a).Nodup) : (l.flatMap fun a => (fs a).map (Fault.under (step a))).Nodup :=
  nodup_flatMap_of_head hsteps (fun a ha => (hfs a ha).map (Fault.under_injective _)) fun _ => head_of_mem_map_under

end Read

/-! ### Texts and truth values -/

namespace Data
variable {d : Data} {s : String} {b : Bool} {n : Int} {f : Fault}

/-- The text that a value is, given as bytes perhaps. -/
inductive IsText : Data → String → Prop
  | text (s : String) : IsText (.text s) s
  | bytes {b : ByteArray} {s : String} : String.fromUTF8? b = some s → IsText (.bytes b) s

/-- What is wrong with a value that should be a text. -/
def textProblem : Data → Problem
  | .bytes _ => .stringUnicode
  | _ => .stringType

/-- The truth value that a value stands for: itself, one or zero, or a word in whatever letters. -/
inductive IsTruth : Data → Bool → Prop
  | bool (b : Bool) : IsTruth (.bool b) b
  | one : IsTruth (.int 1) true
  | zero : IsTruth (.int 0) false
  | float {x : Float} {n : Int} {b : Bool} : Text.floatInt? x = some n → IsTruth (.int n) b → IsTruth (.float x) b
  | yes {d : Data} {s : String} : IsText d s → s.toLower ∈ ["1", "true", "t", "yes", "y", "on"] → IsTruth d true
  | no {d : Data} {s : String} : IsText d s → s.toLower ∈ ["0", "false", "f", "no", "n", "off"] → IsTruth d false

/-- What is wrong with a value that should be a truth value. -/
def truthProblem : Data → Problem
  | .text _ | .bytes _ => .boolParsing
  | .int n => if isSmall n then .boolParsing else .boolType
  | .float x => if (Text.floatInt? x).any isSmall then .boolParsing else .boolType
  | _ => .boolType

theorem isText_bytes {bs : ByteArray} : (bytes bs).IsText s ↔ String.fromUTF8? bs = some s := by
  refine ⟨?_, .bytes⟩
  rintro ⟨⟩
  assumption

theorem decides_readString (d : Data) : d.readString.Decides d.IsText d.textProblem := by
  cases d with
  | text s => exact Or.inl ⟨s, .text s, rfl⟩
  | bytes bs =>
    cases hread : String.fromUTF8? bs with
    | some s => exact Or.inl ⟨s, .bytes hread, by simp only [readString, hread]⟩
    | none => exact Or.inr ⟨fun s h => by simp [isText_bytes, hread] at h, by simp only [readString, hread]; rfl⟩
  | _ => exact Or.inr ⟨nofun, rfl⟩

theorem blames_readString (d : Data) : d.readString.Blames := d.decides_readString.blames

theorem isTruth_text : (text s).IsTruth b ↔ boolOfText? s = some b := by
  have hlower : String.ofList (s.toList.map Char.toLower) = s.toLower := by
    rw [← String.toList_map, String.ofList_toList]
    rfl
  have hapart : ∀ word ∈ ["0", "false", "f", "no", "n", "off"], word ∉ ["1", "true", "t", "yes", "y", "on"] := by decide
  simp only [boolOfText?, hlower]
  constructor
  · rintro (_ | _ | _ | _ | ⟨⟨⟩, hword⟩ | ⟨⟨⟩, hword⟩)
    · rw [if_pos hword]
    · rw [if_neg (hapart _ hword), if_pos hword]
  · intro h
    split at h
    · next hword =>
      cases h
      exact .yes (.text s) hword
    split at h
    · next hword =>
      cases h
      exact .no (.text s) hword
    · cases h

theorem isTruth_bytes {bs : ByteArray} : (bytes bs).IsTruth b ↔ (String.fromUTF8? bs).bind boolOfText? = some b := by
  rw [Option.bind_eq_some_iff]
  constructor
  · rintro (_ | _ | _ | _ | ⟨_ | hread, hword⟩ | ⟨_ | hread, hword⟩)
    · exact ⟨_, hread, isTruth_text.mp (.yes (.text _) hword)⟩
    · exact ⟨_, hread, isTruth_text.mp (.no (.text _) hword)⟩
  · rintro ⟨s, hread, h⟩
    rcases isTruth_text.mpr h with _ | _ | _ | _ | ⟨⟨⟩, hword⟩ | ⟨⟨⟩, hword⟩
    · exact .yes (.bytes hread) hword
    · exact .no (.bytes hread) hword

theorem isTruth_int : (int n).IsTruth b ↔ boolOfInt? n = some b := by
  constructor
  · rintro (_ | _ | _ | _ | ⟨⟨⟩, -⟩ | ⟨⟨⟩, -⟩) <;> rfl
  · intro h
    unfold boolOfInt? at h
    split at h
    · next hone =>
      cases h
      exact hone ▸ .one
    split at h
    · next hzero =>
      cases h
      exact hzero ▸ .zero
    · cases h

theorem isTruth_float {x : Float} : (float x).IsTruth b ↔ ∃ n, Text.floatInt? x = some n ∧ (int n).IsTruth b := by
  constructor
  · rintro (_ | _ | _ | ⟨hwhole, h⟩ | ⟨⟨⟩, -⟩ | ⟨⟨⟩, -⟩)
    exact ⟨_, hwhole, h⟩
  · rintro ⟨n, hwhole, h⟩
    exact .float hwhole h

theorem isSmall_of_isTruth (h : (int n).IsTruth b) : isSmall n = true := by
  rcases h with _ | _ | _ | _ | ⟨⟨⟩, -⟩ | ⟨⟨⟩, -⟩ <;> rfl

theorem decides_parsedBool {o : Option Bool} (h : ∀ b, d.IsTruth b ↔ o = some b) :
    (parsedBool o).Decides d.IsTruth .boolParsing := by
  cases o with
  | some b => exact Or.inl ⟨b, (h b).mpr rfl, rfl⟩
  | none => exact Or.inr ⟨fun b hb => (by cases (h b).mp hb), rfl⟩

theorem decides_readBool_int (n : Int) : (int n).readBool.Decides (int n).IsTruth (int n).truthProblem := by
  rw [readBool, truthProblem]
  cases hsmall : isSmall n with
  | true => exact decides_parsedBool fun b => isTruth_int
  | false => exact Or.inr ⟨fun b h => by simp [isSmall_of_isTruth h] at hsmall, rfl⟩

theorem decides_readBool (d : Data) : d.readBool.Decides d.IsTruth d.truthProblem := by
  cases d with
  | bool b => exact Or.inl ⟨b, .bool b, rfl⟩
  | text s => exact decides_parsedBool fun b => isTruth_text
  | bytes bs => exact decides_parsedBool fun b => isTruth_bytes
  | int n => exact decides_readBool_int n
  | float x =>
    cases hwhole : Text.floatInt? x with
    | none =>
      simp only [readBool, truthProblem, hwhole]
      exact Or.inr ⟨fun b h => (by simp [isTruth_float, hwhole] at h), rfl⟩
    | some n =>
      have hread : (float x).readBool = (int n).readBool := by simp only [readBool, hwhole]
      have hproblem : (float x).truthProblem = (int n).truthProblem := by simp only [truthProblem, hwhole, Option.any_some]
      have htruth : (float x).IsTruth = (int n).IsTruth := funext fun b => by simp [isTruth_float, hwhole]
      rw [hread, hproblem, htruth]
      exact decides_readBool_int n
  | _ => exact Or.inr ⟨by rintro b (_ | _ | _ | _ | ⟨⟨⟩, -⟩ | ⟨⟨⟩, -⟩), rfl⟩

theorem blames_readInt (d : Data) : d.readInt.Blames := by
  cases d with
  | text s =>
    rw [readInt]
    split
    · exact Read.blames_ok _
    · exact Read.blames_fail _
  | bool | int => exact Read.blames_ok _
  | _ => exact Read.blames_fail _

/-! ### Lists of texts -/

/-- The items of a list or a set. -/
def items? : Data → Option (List Data)
  | .list items | .set items => some items
  | _ => none

theorem readList_of_items {α : Type} (item : Data → Read α) {items : List Data} (h : d.items? = some items) :
    readList item d = readItems item items := by
  cases d <;> cases h <;> rfl

theorem readList_of_none {α : Type} (item : Data → Read α) (h : d.items? = none) :
    readList item d = .fail .listType := by
  cases d <;> first | rfl | cases h

theorem faults_readItems {α : Type} (item : Data → Read α) (items : List Data) : (readItems item items).faults =
    items.zipIdx.flatMap fun e => (item e.1).faults.map (Fault.under (.index e.2)) := by
  rw [readItems, Read.faults_all, List.flatMap_map]
  simp only [Read.faults_under]

theorem blames_readList {α : Type} {item : Data → Read α} (h : ∀ d, (item d).Blames) (d : Data) :
    (readList item d).Blames := by
  cases hitems : d.items? with
  | none => exact readList_of_none item hitems ▸ Read.blames_fail _
  | some items =>
    rw [readList_of_items item hitems]
    refine Read.blames_all fun r hr => ?_
    obtain ⟨e, -, rfl⟩ := List.mem_map.mp hr
    exact (h e.1).under _

theorem blames_texts (d : Data) : (readList readString d).Blames :=
  blames_readList blames_readString d

theorem mem_faults_texts : f ∈ (readList readString d).faults ↔ (d.items? = none ∧ f = ⟨[], .listType⟩) ∨
    ∃ (items : List Data) (i : Nat) (item : Data), d.items? = some items ∧ items[i]? = some item ∧
      (∀ s, ¬ item.IsText s) ∧ f = ⟨[.index i], item.textProblem⟩ := by
  cases hitems : d.items? with
  | none => simp [readList_of_none readString hitems]
  | some items =>
    simp only [readList_of_items readString hitems, faults_readItems, List.mem_flatMap, List.mem_map, Prod.exists,
      List.mem_zipIdx_iff_getElem?, (decides_readString _).mem_faults]
    constructor
    · rintro ⟨item, i, hitem, _, ⟨htext, rfl⟩, rfl⟩
      exact Or.inr ⟨items, i, item, rfl, hitem, htext, rfl⟩
    · rintro (⟨⟨⟩, -⟩ | ⟨_, i, item, ⟨⟩, hitem, htext, rfl⟩)
      exact ⟨item, i, hitem, _, ⟨htext, rfl⟩, rfl⟩

theorem nodup_faults_texts (d : Data) : (readList readString d).faults.Nodup := by
  cases hitems : d.items? with
  | none => exact readList_of_none readString hitems ▸ List.nodup_singleton _
  | some items =>
    rw [readList_of_items readString hitems, faults_readItems]
    refine Read.nodup_flatMap_under ?_ fun e _ => e.1.decides_readString.nodup
    have hsteps : items.zipIdx.map (fun e => Step.index e.2) = (List.range items.length).map fun i => .index i := by
      rw [List.range_eq_range', ← List.zipIdx_map_snd 0 items, List.map_map]
      rfl
    rw [hsteps]
    refine List.nodup_range.map fun i j hij => ?_
    exact Int.ofNat.inj (Step.index.inj hij)

/-! ### Tables of such lists -/

/-- What is wrong with an entry of a table, seen from behind its key. -/
def entryFaults (e : Data × Data) : List Fault :=
  e.1.readString.faults.map (Fault.under (.name "[key]")) ++ (readList readString e.2).faults

theorem readTable_map {α : Type} (value : Data → Read α) (entries : List (Data × Data)) :
    readTable value (.map entries) = OrderedMap.ofList <$> Read.all (entries.map (readEntry value)) := by
  rw [readTable]
  cases Read.all (entries.map (readEntry value)) <;> rfl

theorem faults_readEntry (e : Data × Data) :
    (readEntry (readList readString) e).faults = (entryFaults e).map (Fault.under e.1.step) := by
  rw [readEntry, Read.faults_both, Read.faults_under, Read.faults_under, Read.faults_under, entryFaults, List.map_append]

theorem faults_readTable (entries : List (Data × Data)) : (readTable (readList readString) (.map entries)).faults =
    entries.flatMap fun e => (entryFaults e).map (Fault.under e.1.step) := by
  rw [readTable_map, Read.faults_map, Read.faults_all, List.flatMap_map]
  simp only [faults_readEntry]

theorem blames_readTable {α : Type} {value : Data → Read α} (h : ∀ d, (value d).Blames) (d : Data) :
    (readTable value d).Blames := by
  cases d with
  | map entries =>
    rw [readTable_map]
    refine (Read.blames_all fun r hr => ?_).map _
    obtain ⟨e, -, rfl⟩ := List.mem_map.mp hr
    exact ((e.1.blames_readString.under _).under _).both ((h e.2).under _)
  | _ => exact Read.blames_fail _

theorem mem_entryFaults {key value : Data} : f ∈ entryFaults (key, value) ↔
    ((∀ s, ¬ key.IsText s) ∧ f = ⟨[.name "[key]"], key.textProblem⟩) ∨ f ∈ (readList readString value).faults := by
  rw [entryFaults, List.mem_append]
  refine or_congr_left ⟨fun h => ?_, fun h => ?_⟩
  · obtain ⟨g, hg, rfl⟩ := List.mem_map.mp h
    obtain ⟨hnone, rfl⟩ := key.decides_readString.mem_faults.mp hg
    exact ⟨hnone, rfl⟩
  · obtain ⟨hnone, rfl⟩ := h
    exact List.mem_map.mpr ⟨_, key.decides_readString.mem_faults.mpr ⟨hnone, rfl⟩, rfl⟩

theorem mem_faults_readTable : f ∈ (readTable (readList readString) d).faults ↔
    ((∀ entries, d ≠ .map entries) ∧ f = ⟨[], .tableType⟩) ∨
    ∃ entries key value g, d = .map entries ∧ (key, value) ∈ entries ∧ g ∈ entryFaults (key, value) ∧
      g.under key.step = f := by
  cases d with
  | map entries =>
    simp only [faults_readTable, List.mem_flatMap, List.mem_map, Prod.exists]
    constructor
    · rintro ⟨key, value, hmem, g, hg, rfl⟩
      exact Or.inr ⟨entries, key, value, g, rfl, hmem, hg, rfl⟩
    · rintro (⟨hnone, -⟩ | ⟨_, key, value, g, ⟨⟩, hmem, hg, rfl⟩)
      · exact absurd rfl (hnone entries)
      · exact ⟨key, value, hmem, g, hg, rfl⟩
  | _ => simp [readTable]

theorem nodup_entryFaults (e : Data × Data) : (entryFaults e).Nodup := by
  refine List.nodup_append.mpr
    ⟨e.1.decides_readString.nodup.map (Fault.under_injective _), e.2.nodup_faults_texts, fun f hf g hg hfg => ?_⟩
  obtain ⟨h, -, rfl⟩ := List.mem_map.mp hf
  rcases mem_faults_texts.mp hg with ⟨-, rfl⟩ | ⟨_, _, _, -, -, -, rfl⟩
  · cases hfg
  · cases hfg

/-- The keys of a table lead to different places. -/
def KeysApart (entries : List (Data × Data)) : Prop := (entries.map fun e => e.1.step).Nodup

theorem nodup_faults_readTable (d : Data) (h : ∀ entries, d = .map entries → KeysApart entries) :
    (readTable (readList readString) d).faults.Nodup := by
  cases d with
  | map entries =>
    rw [faults_readTable]
    exact Read.nodup_flatMap_under (h entries rfl) fun e _ => nodup_entryFaults e
  | _ => exact List.nodup_singleton _

/-! ### Values as data -/

section
variable {α : Type} {read : Data → Read α} (give : α → Data)

theorem readList_map (h : ∀ a, read (give a) = .ok a) (as : List α) : readList read (.list (as.map give)) = .ok as := by
  have hitems : ((as.map give).zipIdx.map fun d => (read d.1).under (.index d.2)) = as.map Except.ok := by
    have hread : (fun d : Data × Nat => (read d.1).under (.index d.2)) ∘ Prod.map give id = Except.ok ∘ Prod.fst :=
      funext fun d => by
        simp only [Function.comp_apply, Prod.map, h]
        rfl
    rw [List.zipIdx_map, List.map_map, hread, ← List.map_map, List.zipIdx_map_fst]
  rw [readList, readItems, hitems, Read.all_map_ok]

theorem readTable_map_entries (h : ∀ a, read (give a) = .ok a) (m : OrderedMap String α) :
    readTable read (.map (m.entries.map fun e => (.text e.1, give e.2))) = .ok m := by
  have hentries : (m.entries.map fun e => (Data.text e.1, give e.2)).map (readEntry read) = m.entries.map Except.ok := by
    rw [List.map_map]
    refine List.map_congr_left fun e _ => ?_
    rw [Function.comp_apply, readEntry, h]
    rfl
  rw [readTable_map, hentries, Read.all_map_ok]
  exact congrArg Except.ok m.ofList_entries

theorem readTexts_map_text (texts : List String) : readList readString (.list (texts.map .text)) = .ok texts :=
  readList_map .text (fun _ => rfl) texts

end
end Data
end FormDirectives
