import FormDirectives.Files.Store

/-! What writing does to the regular files of a store. Directories are made only where nothing stands, so whatever
    becomes of a writing, the regular files stay as they are but for the one that is written; and that one is found
    again under the path that it was written to, since no directory on the way to it is touched. -/

namespace FormDirectives

theorem eq_ok_of_toOption {ε α : Type} {x : Except ε α} {a : α} (h : x.toOption = some a) : x = .ok a := by
  cases x with
  | error e => cases h
  | ok b => exact congrArg Except.ok (Option.some.inj h)

namespace Files.Store

/-- The bytes of the regular file at a place, if one stands there. -/
def content? (s : Store) (p : Place) : Option ByteArray :=
  match s.item? p with
  | some (.file content) => some content
  | _ => none

/-- Both stores hold the same regular files. -/
def SameFiles (s t : Store) : Prop := ∀ q, t.content? q = s.content? q

/-- Directories may be made from the one store to the other, and nothing else is changed. -/
structure Extends (s t : Store) : Prop where
  files : SameFiles s t
  directories : ∀ q, s.item? q = some .directory → t.item? q = some .directory

/-- The path leads to a regular file with this content, and all other regular files are as they were. -/
def Wrote (s t : Store) (p : Path) (content : ByteArray) : Prop :=
  ∃ here, t.place p = .ok here ∧ t.content? here = some content ∧ ∀ q, q ≠ here → t.content? q = s.content? q

/-- Some text can be written to the path. -/
def Writable (s : Store) (p : Path) : Prop := ∃ text, (s.write p text).2 = none

variable {s t u : Store} {p : Path} {here q : Place} {i : Item} {content : ByteArray}

theorem SameFiles.refl (s : Store) : SameFiles s s := fun _ => rfl

theorem SameFiles.trans (h : SameFiles s t) (h' : SameFiles t u) : SameFiles s u := fun q => (h' q).trans (h q)

theorem Extends.refl (s : Store) : Extends s s := ⟨.refl s, fun _ h => h⟩

theorem Extends.trans (h : Extends s t) (h' : Extends t u) : Extends s u :=
  ⟨h.files.trans h'.files, fun q hq => h'.directories q (h.directories q hq)⟩

/-! ### Putting one item -/

theorem isFixed_eq_false (h : s.item? here ≠ some .directory) : isFixed here = false := by
  rw [← Bool.not_eq_true]
  intro hfixed
  exact h (if_pos hfixed)

theorem item?_put (h : s.item? here ≠ some .directory) (i : Item) (q : Place) :
    (s.put here i).item? q = if q = here then some i else s.item? q := by
  by_cases hq : q = here
  · subst hq
    rw [if_pos rfl, item?, if_neg (Bool.eq_false_iff.mp (isFixed_eq_false h)), put, OrderedMap.get?_insert, if_pos rfl]
  · rw [if_neg hq, item?, item?, put, OrderedMap.get?_insert, if_neg hq]

theorem directory_put (h : s.item? here ≠ some .directory) (i : Item) {q : Place} (hq : s.item? q = some .directory) :
    (s.put here i).item? q = some .directory := by
  have hne : q ≠ here := fun heq => h (heq ▸ hq)
  rwa [item?_put h, if_neg hne]

theorem extends_put_directory (h : s.item? here = none) : Extends s (s.put here .directory) := by
  have hne : s.item? here ≠ some .directory := by simp [h]
  refine ⟨fun q => ?_, fun q => directory_put hne _⟩
  unfold content?
  by_cases hq : q = here
  · rw [item?_put hne, if_pos hq, hq, h]
  · rw [item?_put hne, if_neg hq]

/-- Where no directory is lost, a path leads where it led. -/
theorem follow_of_directories (h : ∀ q, s.item? q = some .directory → t.item? q = some .directory) :
    ∀ {parts : List String} {start : Place}, s.follow start parts = .ok here → t.follow start parts = .ok here
  | [], _, hfollow => hfollow
  | [_], _, hfollow => hfollow
  | part :: next :: rest, start, hfollow => by
    rw [follow] at hfollow ⊢
    generalize (if part = ".." then up start else start ++ [part]) = middle at hfollow ⊢
    split at hfollow
    · cases hfollow
    · next hsize =>
      rw [if_neg hsize]
      split at hfollow
      · next hmiddle =>
        rw [h middle hmiddle]
        exact follow_of_directories h hfollow
      · cases hfollow
      · cases hfollow

theorem place_of_directories (h : ∀ q, s.item? q = some .directory → t.item? q = some .directory)
    (hplace : s.place p = .ok here) : t.place p = .ok here := by
  unfold place at hplace ⊢
  simp only at hplace ⊢
  split at hplace
  · cases hplace
  · next hnull =>
    rw [if_neg hnull]
    split at hplace
    · cases hplace
    · next hsize =>
      rw [if_neg hsize]
      exact follow_of_directories h hplace

/-- A file that is put takes no directory's place, so what leads to it is followed as before. -/
theorem place_put (hfile : s.item? here ≠ some .directory) (h : s.place p = .ok here) (i : Item) :
    (s.put here i).place p = .ok here :=
  place_of_directories (fun _ => directory_put hfile i) h

theorem wrote_put (hfile : s.item? here ≠ some .directory) (h : s.place p = .ok here) (content : ByteArray) :
    Wrote s (s.put here (.file content)) p content := by
  refine ⟨here, place_put hfile h _, ?_, fun q hq => ?_⟩
  · rw [content?, item?_put hfile, if_pos rfl]
  · rw [content?, content?, item?_put hfile, if_neg hq]

/-! ### Directories -/

theorem makeDirectory_eq_ok (h : s.makeDirectory p = .ok t) :
    ∃ here, s.place p = .ok here ∧ s.item? here = none ∧ t = s.put here .directory := by
  unfold makeDirectory at h
  split at h
  · cases h
  · next here hplace =>
    split at h
    · cases h
    · next hnone =>
      split at h
      · exact ⟨here, hplace, hnone, (Except.ok.inj h).symm⟩
      · cases h
      · cases h

theorem extends_of_makeDirectory (h : s.makeDirectory p = .ok t) : Extends s t := by
  obtain ⟨here, -, hnone, rfl⟩ := makeDirectory_eq_ok h
  exact extends_put_directory hnone

theorem extends_makeDirectories : ∀ (depth : Nat) (s : Store) (p : Path), Extends s (s.makeDirectories p depth).1
  | 0, s, _ => .refl s
  | depth + 1, s, p => by
    unfold makeDirectories
    split
    · next hmade => exact extends_of_makeDirectory hmade
    · -- The directories above it are made first.
      have habove := extends_makeDirectories depth s p.parent
      split
      · next habove' => exact habove' ▸ habove
      · next t habove' =>
        rw [habove'] at habove
        split
        · next hmade => exact habove.trans (extends_of_makeDirectory hmade)
        · exact habove
    · exact .refl s

theorem isDirectory_iff : s.isDirectory p = true ↔ ∃ here, s.place p = .ok here ∧ s.item? here = some .directory := by
  unfold isDirectory lookup
  cases hplace : s.place p with
  | error kind => cases kind <;> simp
  | ok here =>
    cases hitem : s.item? here with
    | none => simp [hitem]
    | some item => cases item <;> simp [hitem]

theorem isDirectory_of_directories (h : ∀ q, s.item? q = some .directory → t.item? q = some .directory)
    (hdirectory : s.isDirectory p = true) : t.isDirectory p = true := by
  obtain ⟨here, hplace, hitem⟩ := isDirectory_iff.mp hdirectory
  exact isDirectory_iff.mpr ⟨here, place_of_directories h hplace, h here hitem⟩

theorem isDirectory_put (h : s.place p = .ok here) (hnone : s.item? here = none) :
    (s.put here .directory).isDirectory p = true := by
  have hne : s.item? here ≠ some .directory := by simp [hnone]
  exact isDirectory_iff.mpr ⟨here, place_put hne h _, by rw [item?_put hne, if_pos rfl]⟩

theorem makeDirectories_of_isDirectory (h : s.isDirectory p = true) (depth : Nat) :
    s.makeDirectories p (depth + 1) = (s, none) := by
  obtain ⟨here, hplace, hitem⟩ := isDirectory_iff.mp h
  have hexists : s.makeDirectory p = .error .exists := by
    rw [makeDirectory, hplace]
    simp only [hitem]
  rw [makeDirectories, hexists]
  simp only [h, if_true]

theorem isDirectory_of_makeDirectories : ∀ {depth : Nat} {s : Store} {p : Path}, (s.makeDirectories p depth).2 = none →
    (s.makeDirectories p depth).1.isDirectory p = true
  | 0, _, _, h => nomatch h
  | depth + 1, s, p, h => by
    have hmade {s t : Store} (h : s.makeDirectory p = .ok t) : t.isDirectory p = true := by
      obtain ⟨here, hplace, hnone, rfl⟩ := makeDirectory_eq_ok h
      exact isDirectory_put hplace hnone
    unfold makeDirectories at h ⊢
    split
    · next hok => exact hmade hok
    · next hnotFound =>
      rw [hnotFound] at h
      split
      · next habove =>
        rw [habove] at h
        cases h
      · next t habove =>
        rw [habove] at h
        split
        · next hok => exact hmade hok
        · next hkind =>
          simp only [hkind] at h
          simpa using h
    · next kind hkind hother =>
      simp only [hother] at h
      simpa using h

/-! ### Files -/

theorem writeFile_cases (s : Store) (p : Path) : (∃ e, ∀ content, s.writeFile p content = (s, some e)) ∨
    ∃ here, s.place p = .ok here ∧ s.item? here ≠ some .directory ∧
      ∀ content, s.writeFile p content = (s.put here (.file content), none) := by
  unfold writeFile
  cases hplace : s.place p with
  | error kind => exact Or.inl ⟨_, fun _ => rfl⟩
  | ok here =>
    simp only
    cases hitem : s.item? here with
    | none =>
      simp only
      cases hup : s.item? (up here) with
      | none => exact Or.inl ⟨_, fun _ => rfl⟩
      | some above =>
        cases above with
        | directory => exact Or.inr ⟨here, rfl, by simp [hitem], fun _ => rfl⟩
        | file _ => exact Or.inl ⟨_, fun _ => rfl⟩
    | some item =>
      cases item with
      | directory => exact Or.inl ⟨_, fun _ => rfl⟩
      | file _ => exact Or.inr ⟨here, rfl, by simp [hitem], fun _ => rfl⟩

/-- First the directories above the file are made, which leaves all else as it is. -/
theorem write_prepared (s : Store) (p : Path) :
    (∃ t e, Extends s t ∧ ∀ text, s.write p text = (t, some e)) ∨
    ∃ t, Extends s t ∧ (p.parent.isHere = true ∨ t.isDirectory p.parent = true) ∧
      ∀ text, s.write p text = t.writeFile p (Text.Utf8.encode text) := by
  unfold write
  by_cases hhere : p.parent.isHere = true
  · simp only [if_pos hhere]
    exact Or.inr ⟨s, .refl s, Or.inl hhere, fun _ => rfl⟩
  · simp only [if_neg hhere]
    have hextends := extends_makeDirectories (p.parts.length + 1) s p.parent
    have hdirectory (h : (s.makeDirectories p.parent (p.parts.length + 1)).2 = none) := isDirectory_of_makeDirectories h
    generalize s.makeDirectories p.parent (p.parts.length + 1) = made at hextends hdirectory ⊢
    obtain ⟨t, _ | e⟩ := made
    · exact Or.inr ⟨t, hextends, Or.inr (hdirectory rfl), fun _ => rfl⟩
    · exact Or.inl ⟨t, e, hextends, fun _ => rfl⟩

/-- A writing fails for every text and leaves the regular files as they are, or it succeeds for every text. -/
theorem write_cases (s : Store) (p : Path) :
    (∃ t e, SameFiles s t ∧ ∀ text, s.write p text = (t, some e)) ∨
    ∀ text, ∃ t, Wrote s t p (Text.Utf8.encode text) ∧ s.write p text = (t, none) := by
  rcases s.write_prepared p with ⟨made, e, hextends, hfails⟩ | ⟨made, hextends, -, hwrite⟩
  · exact Or.inl ⟨made, e, hextends.files, hfails⟩
  · rcases made.writeFile_cases p with ⟨e, he⟩ | ⟨here, hplace, hfile, hput⟩
    · exact Or.inl ⟨made, e, hextends.files, fun text => (hwrite text).trans (he _)⟩
    · refine Or.inr fun text => ⟨_, ?_, (hwrite text).trans (hput _)⟩
      obtain ⟨here', hplace', hcontent, hothers⟩ := wrote_put hfile hplace (Text.Utf8.encode text)
      exact ⟨here', hplace', hcontent, fun q hq => (hothers q hq).trans (hextends.files q)⟩

theorem Writable.write (h : s.Writable p) (text : String) :
    ∃ t, Wrote s t p (Text.Utf8.encode text) ∧ s.write p text = (t, none) := by
  rcases s.write_cases p with ⟨t, e, -, hfails⟩ | hwrites
  · obtain ⟨text', hnone⟩ := h
    rw [hfails text'] at hnone
    cases hnone
  · exact hwrites text

end Files.Store
end FormDirectives
