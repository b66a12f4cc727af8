import FormDirectives.Project
import FormDirectives.Proofs.Config.Validation
import Mathlib.Data.List.Forall2

/-! How deep a document is looked into. The data of a node is made down to some level, since a document may contain
    itself, and data made down to two different levels looks the same above the lesser of them. Options are read from the
    first four levels, so from there on it makes no difference how deep the data of a configuration goes. -/

namespace FormDirectives

/-! ### Values that look the same -/

namespace Data

/-- What a value looks like without its parts. -/
def head : Data → Data
  | .list _ => .list []
  | .set _ => .set []
  | .map _ => .map []
  | d => d

def parts : Data → List Data
  | .list items | .set items => items
  | _ => []

def entries : Data → List (Data × Data)
  | .map entries => entries
  | _ => []

/-- The values look the same, and so do their parts for so many levels. -/
def Agree : Nat → Data → Data → Prop
  | 0, a, b => a.head = b.head
  | k + 1, a, b => a.head = b.head ∧ List.Forall₂ (Agree k) a.parts b.parts ∧
      List.Forall₂ (fun e f => Agree k e.1 f.1 ∧ Agree k e.2 f.2) a.entries b.entries

section
variable {k : Nat} {a b : Data} {as bs : List Data} {es fs : List (Data × Data)}

theorem Agree.head (h : Agree k a b) : a.head = b.head := by
  cases k with
  | zero => exact h
  | succ k => exact h.1

theorem agree_refl : ∀ (k : Nat) (d : Data), Agree k d d
  | 0, _ => rfl
  | k + 1, _ => ⟨rfl, List.forall₂_same.mpr fun d _ => agree_refl k d,
      List.forall₂_same.mpr fun e _ => ⟨agree_refl k e.1, agree_refl k e.2⟩⟩

theorem Agree.upper : ∀ {k : Nat} {a b : Data}, Agree (k + 1) a b → Agree k a b
  | 0, _, _, h => h.1
  | _ + 1, _, _, ⟨hhead, hparts, hentries⟩ => ⟨hhead, hparts.imp fun _ _ => Agree.upper,
      hentries.imp fun _ _ h => ⟨h.1.upper, h.2.upper⟩⟩

theorem agree_list (h : ∀ l < k, List.Forall₂ (Agree l) as bs) : Agree k (.list as) (.list bs) := by
  cases k with
  | zero => rfl
  | succ k => exact ⟨rfl, h k k.lt_succ_self, .nil⟩

theorem agree_set (h : ∀ l < k, List.Forall₂ (Agree l) as bs) : Agree k (.set as) (.set bs) := by
  cases k with
  | zero => rfl
  | succ k => exact ⟨rfl, h k k.lt_succ_self, .nil⟩

theorem agree_map (h : ∀ l < k, List.Forall₂ (fun e f => Agree l e.1 f.1 ∧ Agree l e.2 f.2) es fs) :
    Agree k (.map es) (.map fs) := by
  cases k with
  | zero => rfl
  | succ k => exact ⟨rfl, .nil, h k k.lt_succ_self⟩

end

/-! ### What is read of the first levels -/

section
variable {α : Type} {a b : Data} {es fs : List (Data × Data)}

theorem map_eq_of_forall₂ {β γ : Type} {R : β → β → Prop} {f : β → γ} {xs ys : List β} (h : List.Forall₂ R xs ys)
    (hf : ∀ x y, R x y → f x = f y) : xs.map f = ys.map f := by
  induction h with
  | nil => rfl
  | cons hxy _ ih => rw [List.map_cons, List.map_cons, hf _ _ hxy, ih]

theorem readBool_head (d : Data) : d.head.readBool = d.readBool := by
  cases d <;> rfl

theorem readString_head (d : Data) : d.head.readString = d.readString := by
  cases d <;> rfl

theorem step_head (d : Data) : d.head.step = d.step := by
  cases d <;> rfl

theorem readBool_congr (h : a.head = b.head) : a.readBool = b.readBool := by
  rw [← readBool_head, h, readBool_head]

theorem readString_congr (h : a.head = b.head) : a.readString = b.readString := by
  rw [← readString_head, h, readString_head]

theorem step_congr (h : a.head = b.head) : a.step = b.step := by
  rw [← step_head, h, step_head]

theorem readItems_eq (item : Data → Read α) (items : List Data) :
    readItems item items = .all ((items.map item).zipIdx.map fun r => r.1.under (.index r.2)) := by
  rw [readItems, List.zipIdx_map, List.map_map]
  rfl

theorem readTexts_congr (h : Agree 1 a b) : a.readList readString = b.readList readString := by
  have hparts : a.parts.map readString = b.parts.map readString :=
    map_eq_of_forall₂ h.2.1 fun _ _ => readString_congr
  have hread (d : Data) : d.readList readString = match d.head with
      | .list _ | .set _ => readItems readString d.parts
      | _ => .fail .listType := by
    cases d <;> rfl
  rw [hread, hread, h.head, readItems_eq, readItems_eq, hparts]

theorem readEntry_congr {e f : Data × Data} (hkey : Agree 1 e.1 f.1) (hvalue : Agree 1 e.2 f.2) :
    readEntry (readList readString) e = readEntry (readList readString) f := by
  rw [readEntry, readString_congr hkey.head, step_congr hkey.head, readTexts_congr hvalue, readEntry]

theorem readSources_congr (h : Agree 2 a b) :
    a.readTable (readList readString) = b.readTable (readList readString) := by
  have hentries := map_eq_of_forall₂ h.2.2 fun _ _ he => readEntry_congr he.1 he.2
  have hread (d : Data) : d.readTable (readList readString) = match d.head with
      | .map _ => OrderedMap.ofList <$> Read.all (d.entries.map (readEntry (readList readString)))
      | _ => .fail .tableType := by
    cases d with
    | map entries => exact readTable_map _ entries
    | _ => rfl
  rw [hread, hread, h.head, hentries]

theorem ofMember_congr (h : Agree 2 a b) (key : String) : Setting.ofMember key a = Setting.ofMember key b := by
  unfold Setting.ofMember
  rw [readBool_congr h.head, readSources_congr h]

theorem ofEntry_head (e : Data × Data) : Setting.ofEntry (e.1.head, e.2) = Setting.ofEntry e := by
  obtain ⟨key, value⟩ := e
  cases key <;> rfl

theorem ofEntry_congr {e f : Data × Data} (hkey : Agree 2 e.1 f.1) (hvalue : Agree 2 e.2 f.2) :
    Setting.ofEntry e = Setting.ofEntry f := by
  rw [← ofEntry_head e, hkey.head, ← ofEntry_head f]
  cases f.1.head with
  | text key => exact congrArg (Read.under (.name key)) (ofMember_congr hvalue key)
  | _ => rfl

/-- Options are read from four levels, which are the value itself and three below it. -/
theorem ofData_congr (h : Agree 3 a b) : Config.ofData a = Config.ofData b := by
  have hentries := map_eq_of_forall₂ h.2.2 fun _ _ he => ofEntry_congr he.1 he.2
  have hread (d : Data) : Config.ofData d = match d.head with
      | .map _ => (fun settings => settings.foldl Setting.apply {}) <$> Read.all (d.entries.map Setting.ofEntry)
      | _ => .fail .optionsType := by
    cases d with
    | map entries => exact Config.ofData_map entries
    | _ => rfl
  rw [hread, hread, h.head, hentries]

theorem isEmpty_congr (h : Agree 1 a b) : a.isEmpty = b.isEmpty := by
  have hparts : a.parts.isEmpty = b.parts.isEmpty := by
    rw [Bool.eq_iff_iff, List.isEmpty_iff_length_eq_zero, h.2.1.length_eq, List.isEmpty_iff_length_eq_zero]
  have hentries : a.entries.isEmpty = b.entries.isEmpty := by
    rw [Bool.eq_iff_iff, List.isEmpty_iff_length_eq_zero, h.2.2.length_eq, List.isEmpty_iff_length_eq_zero]
  have hread (d : Data) : d.isEmpty = match d.head with
      | .list _ | .set _ => d.parts.isEmpty
      | .map _ => d.entries.isEmpty
      | e => e.isEmpty := by
    cases d <;> rfl
  rw [hread, hread, h.head, hparts, hentries]

end
end Data

/-! ### Data down to a level -/

namespace Yaml.Document
open Data

/-- Entries that look the same in their keys and in their values. -/
abbrev EntriesAgree (k : Nat) (es fs : List (Data × Data)) : Prop :=
  List.Forall₂ (fun e f => Agree k e.1 f.1 ∧ Agree k e.2 f.2) es fs

section
variable {k : Nat} {a b key key' value value' : Data} {es fs : List (Data × Data)} {d : Document}

theorem sameKey_head (a b : Data) : sameKey a.head b.head = sameKey a b := by
  cases a <;> cases b <;> rfl

theorem sameKey_congr (ha : a.head = b.head) (hkey : key.head = key'.head) : sameKey a key = sameKey b key' := by
  rw [← sameKey_head, ha, hkey, sameKey_head]

theorem putEntry_agree (h : EntriesAgree k es fs) (hkey : Agree k key key') (hvalue : Agree k value value') :
    EntriesAgree k (putEntry es key value) (putEntry fs key' value') := by
  have hany : (es.any fun e => sameKey e.1 key) = fs.any fun e => sameKey e.1 key' := by
    induction h with
    | nil => rfl
    | cons he _ ih => rw [List.any_cons, List.any_cons, ih, sameKey_congr he.1.head hkey.head]
  unfold putEntry
  rw [hany]
  split
  · refine List.forall₂_map_left_iff.mpr (List.forall₂_map_right_iff.mpr (h.imp fun e f he => ?_))
    rw [sameKey_congr he.1.head hkey.head]
    split
    · exact ⟨he.1, hvalue⟩
    · exact he
  · exact List.rel_append h (.cons ⟨hkey, hvalue⟩ .nil)

section
variable {f g : Node → Data}

theorem foldl_putEntry_agree (hfg : ∀ node, Agree k (f node) (g node)) (nodes : List (Node × Node))
    (h : EntriesAgree k es fs) : EntriesAgree k (nodes.foldl (fun m e => putEntry m (f e.1) (f e.2)) es)
      (nodes.foldl (fun m e => putEntry m (g e.1) (g e.2)) fs) := by
  induction nodes generalizing es fs with
  | nil => exact h
  | cons e nodes ih => exact ih (putEntry_agree h (hfg e.1) (hfg e.2))

/-- The entries of a mapping with those that it merges. -/
theorem entriesOf_agree (d : Document) (hfg : ∀ node, Agree k (f node) (g node)) (nodes : List (Node × Node)) :
    EntriesAgree k
      (match d.entriesOf nodes with
      | .ok es => es.foldl (fun m e => putEntry m (f e.1) (f e.2)) []
      | .error _ => [])
      (match d.entriesOf nodes with
      | .ok es => es.foldl (fun m e => putEntry m (g e.1) (g e.2)) []
      | .error _ => []) := by
  cases d.entriesOf nodes with
  | ok es => exact foldl_putEntry_agree hfg es .nil
  | error e => exact .nil

theorem agree_map_nodes (hfg : ∀ node, Agree k (f node) (g node)) (nodes : List Node) :
    List.Forall₂ (Agree k) (nodes.map f) (nodes.map g) :=
  List.forall₂_map_left_iff.mpr (List.forall₂_map_right_iff.mpr (List.forall₂_same.mpr fun node _ => hfg node))

/-- A pair is a list of its key and its value. -/
theorem agree_pair (d : Document) (hfg : ∀ l < k, ∀ node, Agree l (f node) (g node)) (node : Node) : Agree k
    (match d.deref node with
    | .mapping _ [(x, y)] => .list [f x, f y]
    | _ => .null)
    (match d.deref node with
    | .mapping _ [(x, y)] => .list [g x, g y]
    | _ => .null) := by
  split
  · exact agree_list fun l hl => .cons (hfg l hl _) (.cons (hfg l hl _) .nil)
  · exact agree_refl k .null

end

/-- What is above two levels is the same in the data down to either. -/
theorem agree_dataOf (d : Document) {m n : Nat} (hm : k < m) (hn : k < n) (node : Node) :
    Agree k (d.dataOf m node) (d.dataOf n node) := by
  induction k using Nat.strongRecOn generalizing m n node with
  | ind k ih =>
    obtain ⟨m, rfl⟩ : ∃ m', m = m' + 1 := ⟨m - 1, by omega⟩
    obtain ⟨n, rfl⟩ : ∃ n', n = n' + 1 := ⟨n - 1, by omega⟩
    have hbelow : ∀ l < k, ∀ node, Agree l (d.dataOf m node) (d.dataOf n node) := fun l hl node =>
      ih l hl (by omega) (by omega) node
    have hpairs : ∀ l < k, ∀ l' < l, ∀ node, Agree l' (d.dataOf m node) (d.dataOf n node) := fun l hl l' hl' =>
      hbelow l' (Nat.lt_trans hl' hl)
    unfold dataOf
    dsimp only
    split
    · exact agree_list fun l hl => agree_map_nodes (hbelow l hl) _
    · exact agree_list fun l hl => agree_map_nodes (agree_pair d (hpairs l hl)) _
    · exact agree_list fun l hl => agree_map_nodes (agree_pair d (hpairs l hl)) _
    · exact agree_map fun l hl => entriesOf_agree d (hbelow l hl) _
    · refine agree_set fun l hl => ?_
      rw [List.forall₂_map_left_iff, List.forall₂_map_right_iff]
      exact (entriesOf_agree d (hbelow l hl) _).imp fun _ _ he => he.1
    · exact agree_refl k _

/-- The options of a configuration do not depend on how deep its data goes, and neither does whether it is empty or a
    mapping at all. -/
theorem options_of_dataOf (d : Document) (node : Node) {depth : Nat} (hdepth : 4 ≤ depth) :
    (d.dataOf dataDepth node).head = (d.dataOf depth node).head ∧
    (d.dataOf dataDepth node).isEmpty = (d.dataOf depth node).isEmpty ∧
    Config.ofData (d.dataOf dataDepth node) = Config.ofData (d.dataOf depth node) := by
  have hagree : Agree 3 (d.dataOf dataDepth node) (d.dataOf depth node) := d.agree_dataOf (by decide) hdepth node
  exact ⟨hagree.head, isEmpty_congr hagree.upper.upper, ofData_congr hagree⟩

end
end Yaml.Document

end FormDirectives
