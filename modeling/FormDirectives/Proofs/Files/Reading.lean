import FormDirectives.Proofs.Files.Writing

/-! Reading files that were written. A writing leaves every directory where it is, so whatever was found before is found
    again; a file is read as before unless it is the one that is written, and that one is read as it was written if no
    carriage return is in it. What was written once can be written again. -/

namespace FormDirectives

namespace Text
variable {cs : List Char}

theorem return_notMem_normalizeNewlines (cs : List Char) : '\r' ∉ normalizeNewlines cs := by
  fun_induction normalizeNewlines cs with
  | case1 => exact List.not_mem_nil
  | case2 rest ih => simpa using ih
  | case3 c rest _ ih =>
    rw [List.mem_cons, not_or]
    refine ⟨?_, ih⟩
    split
    · decide
    · next hc => exact Ne.symm hc

theorem normalizeNewlines_of_notMem (h : '\r' ∉ cs) : normalizeNewlines cs = cs := by
  fun_induction normalizeNewlines cs with
  | case1 => rfl
  | case2 rest => exact absurd List.mem_cons_self h
  | case3 c rest _ ih =>
    rw [List.mem_cons, not_or] at h
    rw [if_neg (Ne.symm h.1), ih h.2]

theorem Utf8.decode_encode (s : String) : Utf8.decode (Utf8.encode s) = .ok s := by
  have hread : String.fromUTF8? s.toUTF8 = some s := dif_pos s.isValidUTF8
  rw [decode, encode, hread]

end Text

namespace Files.Store
variable {s t u : Store} {p q : Path} {here : Place} {content : ByteArray} {text source : String}

/-! ### Texts of files -/

/-- The text of a file is that of its bytes, with its line ends normalised. -/
theorem read_eq_ok : s.read p = .ok text ↔ ∃ here content raw, s.place p = .ok here ∧ s.content? here = some content ∧
    Text.Utf8.decode content = .ok raw ∧ text = String.ofList (Text.normalizeNewlines raw.toList) := by
  unfold read content?
  cases hplace : s.place p with
  | error kind => simp
  | ok here =>
    cases hitem : s.item? here with
    | none => simp [hitem]
    | some item =>
      cases item with
      | directory => simp [hitem]
      | file content =>
        cases hdecode : Text.Utf8.decode content with
        | error f => simp [hitem, hdecode]
        | ok raw => simp [hitem, hdecode, eq_comm]

theorem return_notMem_of_read (h : s.read p = .ok text) : '\r' ∉ text.toList := by
  obtain ⟨_, _, raw, -, -, -, rfl⟩ := read_eq_ok.mp h
  rw [String.toList_ofList]
  exact Text.return_notMem_normalizeNewlines raw.toList

/-! ### Reading after a writing -/

theorem directories_write (s : Store) (p : Path) (text : String) :
    ∀ q, s.item? q = some .directory → (s.write p text).1.item? q = some .directory := by
  intro q hq
  rcases s.write_prepared p with ⟨made, e, hextends, hfails⟩ | ⟨made, hextends, -, hwrite⟩
  · rw [hfails text]
    exact hextends.directories q hq
  · rw [hwrite text]
    rcases made.writeFile_cases p with ⟨e, he⟩ | ⟨here, -, hfile, hput⟩
    · rw [he]
      exact hextends.directories q hq
    · rw [hput]
      exact directory_put hfile _ (hextends.directories q hq)

theorem place_of_write (h : s.write p text = (t, none)) (hplace : s.place q = .ok here) : t.place q = .ok here := by
  have hdirectories := s.directories_write p text
  rw [h] at hdirectories
  exact place_of_directories hdirectories hplace

theorem wrote_of_write (h : s.write p text = (t, none)) : s.Wrote t p (Text.Utf8.encode text) := by
  rcases s.write_cases p with ⟨_, e, -, hfails⟩ | hwrites
  · cases (hfails text).symm.trans h
  · obtain ⟨t', hwrote, hwrite⟩ := hwrites text
    cases hwrite.symm.trans h
    exact hwrote

/-- What is written without a carriage return is read as it was written. -/
theorem read_written (h : s.Wrote t p (Text.Utf8.encode text)) (htext : '\r' ∉ text.toList) : t.read p = .ok text := by
  obtain ⟨here, hplace, hcontent, -⟩ := h
  refine read_eq_ok.mpr ⟨here, _, text, hplace, hcontent, Text.Utf8.decode_encode text, ?_⟩
  rw [Text.normalizeNewlines_of_notMem htext, String.ofList_toList]

/-- A writing leaves the text of every other file. -/
theorem read_of_write (hwrite : s.write p text = (t, none)) (hread : s.read q = .ok source)
    (hother : t.place p ≠ t.place q) : t.read q = .ok source := by
  obtain ⟨here, content, raw, hplace, hcontent, hdecode, rfl⟩ := read_eq_ok.mp hread
  obtain ⟨written, hplaceWritten, -, hothers⟩ := wrote_of_write hwrite
  have hkept := place_of_write hwrite hplace
  have hne : here ≠ written := fun heq => hother (by rw [hplaceWritten, hkept, heq])
  exact read_eq_ok.mpr ⟨here, content, raw, hkept, (hothers here hne).trans hcontent, hdecode, rfl⟩

/-- What stands there as a file, in a directory, is written over. -/
theorem write_of_file (hplace : s.place p = .ok here) (hitem : s.item? here = some (.file content))
    (habove : p.parent.isHere = true ∨ s.isDirectory p.parent = true) (text : String) :
    s.write p text = (s.put here (.file (Text.Utf8.encode text)), none) := by
  have hwrite : s.writeFile p (Text.Utf8.encode text) = (s.put here (.file (Text.Utf8.encode text)), none) := by
    rw [writeFile, hplace]
    simp only [hitem]
  unfold write
  by_cases hhere : p.parent.isHere = true
  · simp only [if_pos hhere, hwrite]
  · simp only [if_neg hhere, makeDirectories_of_isDirectory (habove.resolve_left hhere), hwrite]

/-- A file that was written can be written again. -/
theorem writable_of_write (h : s.write p text = (t, none)) : t.Writable p := by
  rcases s.write_prepared p with ⟨_, e, -, hfails⟩ | ⟨made, hextends, habove, hwrite⟩
  · cases (hfails text).symm.trans h
  · rcases made.writeFile_cases p with ⟨e, he⟩ | ⟨here, hplace, hfile, hput⟩
    · cases ((hwrite text).trans (he _)).symm.trans h
    · cases ((hwrite text).trans (hput _)).symm.trans h
      have hitem : (made.put here (.file (Text.Utf8.encode text))).item? here =
          some (.file (Text.Utf8.encode text)) := by
        rw [item?_put hfile, if_pos rfl]
      have habove' := habove.imp_right
        (isDirectory_of_directories fun q => directory_put hfile (.file (Text.Utf8.encode text)) (q := q))
      exact ⟨text, congrArg Prod.snd (write_of_file (place_put hfile hplace _) hitem habove' text)⟩

/-- The same text written once more leaves the regular files as they are. -/
theorem sameFiles_of_write_again (h : s.write p text = (t, none)) (h' : t.write p text = (u, none)) :
    SameFiles t u := by
  obtain ⟨here, hplace, hcontent, -⟩ := wrote_of_write h
  obtain ⟨again, hplace', hcontent', hothers⟩ := wrote_of_write h'
  cases (place_of_write h' hplace).symm.trans hplace'
  intro q
  by_cases hq : q = here
  · rw [hq, hcontent, hcontent']
  · exact hothers q hq

end Files.Store
end FormDirectives
