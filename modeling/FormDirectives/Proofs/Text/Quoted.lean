import FormDirectives.Proofs.Text.Blank
import FormDirectives.Text.Quoted

/-! Quoted texts are printable, and they can be read again. The mark in front says which mark is escaped, a backslash
    begins every escape and nothing else, and the letter behind it says how many digits follow. So no text is quoted
    like another. -/

namespace FormDirectives.Text
variable {c mark : Char} {cs ds rest : List Char} {s t : String} {width n : Nat}

/-! ### Printable characters -/

theorem isPrintable_of_ascii (hl : 0x20 ≤ c.toNat) (hu : c.toNat ≤ 0x7e) : isPrintable c = true := by
  have hranges : unprintableRanges.all (fun r => r.2 < 0x20 || 0x7e < r.1) = true := by decide +kernel
  rw [isPrintable, Bool.not_eq_true', List.any_eq_false]
  intro r hr
  have hr := List.all_eq_true.mp hranges r hr
  simp only [Bool.or_eq_true, decide_eq_true_eq] at hr
  simp only [Bool.and_eq_true, decide_eq_true_eq]
  omega

theorem isPrintable_of_isWord (h : isWord c = true) : isPrintable c = true := by
  obtain ⟨hl, hu⟩ := bounds_of_isWord h
  exact isPrintable_of_ascii (by omega) (by omega)

/-- All characters of a text are printable. -/
def AllPrintable (s : String) : Prop := ∀ c ∈ s.toList, isPrintable c = true

theorem AllPrintable.append (hs : AllPrintable s) (ht : AllPrintable t) : AllPrintable (s ++ t) := by
  rw [AllPrintable, String.toList_append, List.forall_mem_append]
  exact ⟨hs, ht⟩

/-- A text that is written out can be looked through. -/
theorem allPrintable_of_ascii (h : s.toList.all (fun c => 0x20 ≤ c.toNat && c.toNat ≤ 0x7e) = true) :
    AllPrintable s := fun c hc => by
  have hc := List.all_eq_true.mp h c hc
  rw [Bool.and_eq_true, decide_eq_true_iff, decide_eq_true_iff] at hc
  exact isPrintable_of_ascii hc.1 hc.2

theorem newline_notMem_of_printable (h : AllPrintable s) : '\n' ∉ s.toList := fun hmem =>
  absurd (h '\n' hmem) (by decide)

/-! ### Hexadecimal digits -/

theorem exists_of_mem_hex : ∀ {width n : Nat}, c ∈ hex width n → ∃ d < 16, c = Nat.digitChar d
  | 0, _, h => absurd h List.not_mem_nil
  | width + 1, n, h => by
    rcases List.mem_append.mp h with h | h
    · exact exists_of_mem_hex h
    · exact ⟨n % 16, Nat.mod_lt n (by decide), List.mem_singleton.mp h⟩

theorem isPrintable_of_mem_hex (h : c ∈ hex width n) : isPrintable c = true := by
  obtain ⟨d, hd, rfl⟩ := exists_of_mem_hex h
  have hdigits : ∀ d < 16, 0x20 ≤ (Nat.digitChar d).toNat ∧ (Nat.digitChar d).toNat ≤ 0x7e := by decide
  exact isPrintable_of_ascii (hdigits d hd).1 (hdigits d hd).2

theorem length_hex : ∀ width n : Nat, (hex width n).length = width
  | 0, _ => rfl
  | width + 1, n => by rw [hex, List.length_append, length_hex, List.length_singleton]

def hexValue (d : Char) : Nat := if d.isDigit then d.toNat - '0'.toNat else d.toNat - 'a'.toNat + 10

/-- The number that hexadecimal digits stand for. -/
def ofHex (ds : List Char) : Nat := ds.foldl (fun n d => n * 16 + hexValue d) 0

theorem hexValue_digitChar : ∀ d < 16, hexValue (Nat.digitChar d) = d := by decide

theorem ofHex_hex : ∀ width n : Nat, ofHex (hex width n) = n % Nat.pow 16 width
  | 0, n => (Nat.mod_one n).symm
  | width + 1, n => by
    have hlast : ofHex (hex width (n / 16) ++ [Nat.digitChar (n % 16)]) =
        ofHex (hex width (n / 16)) * 16 + hexValue (Nat.digitChar (n % 16)) := List.foldl_append
    have hpow : Nat.pow 16 (width + 1) = 16 * Nat.pow 16 width := Nat.mul_comm _ _
    rw [hex, hlast, ofHex_hex, hexValue_digitChar _ (Nat.mod_lt n (by decide)), hpow, Nat.mod_mul]
    omega

/-! ### Quoting is printable -/

/-- An escape is a backslash, a letter and perhaps digits. -/
theorem isPrintable_of_mem_escape {letter : Char} (hletter : isPrintable letter = true)
    (hdigits : ∀ d ∈ ds, isPrintable d = true) : ∀ c ∈ '\\' :: letter :: ds, isPrintable c = true :=
  List.forall_mem_cons.mpr ⟨isPrintable_of_ascii (by decide) (by decide), List.forall_mem_cons.mpr ⟨hletter, hdigits⟩⟩

theorem isPrintable_of_mem_quotedChar (hmark : isPrintable mark = true) (c : Char) :
    ∀ d ∈ quotedChar mark c, isPrintable d = true := by
  have hletters : AllPrintable "\\nrtxuU" := allPrintable_of_ascii (by decide)
  have hhex (width : Nat) : ∀ d ∈ hex width c.toNat, isPrintable d = true := fun _ => isPrintable_of_mem_hex
  unfold quotedChar
  split
  · next hc =>
    refine isPrintable_of_mem_escape ?_ nofun
    rcases hc with rfl | rfl
    · exact hmark
    · exact hletters '\\' (by decide)
  split
  · exact isPrintable_of_mem_escape (hletters 'n' (by decide)) nofun
  split
  · exact isPrintable_of_mem_escape (hletters 'r' (by decide)) nofun
  split
  · exact isPrintable_of_mem_escape (hletters 't' (by decide)) nofun
  split
  · next hc => exact List.forall_mem_singleton.mpr hc
  split
  · exact isPrintable_of_mem_escape (hletters 'x' (by decide)) (hhex 2)
  split
  · exact isPrintable_of_mem_escape (hletters 'u' (by decide)) (hhex 4)
  · exact isPrintable_of_mem_escape (hletters 'U' (by decide)) (hhex 8)

theorem quoteMark_cases (cs : List Char) : quoteMark cs = '\'' ∨ quoteMark cs = '"' := by
  unfold quoteMark
  split
  · exact Or.inr rfl
  · exact Or.inl rfl

theorem allPrintable_quoted (s : String) : AllPrintable (quoted s) := by
  have hmark : isPrintable (quoteMark s.toList) = true := by
    rcases quoteMark_cases s.toList with h | h <;> rw [h] <;> exact isPrintable_of_ascii (by decide) (by decide)
  intro c hc
  rw [quoted, String.toList_ofList, quotedChars, List.mem_cons, List.mem_append, List.mem_singleton] at hc
  rcases hc with rfl | hc | rfl
  · exact hmark
  · obtain ⟨d, -, hd⟩ := List.mem_flatMap.mp hc
    exact isPrintable_of_mem_quotedChar hmark d c hd
  · exact hmark

/-! ### Reading quoted texts -/

/-- How many digits follow the letter of an escape, if any do. -/
def escapeWidth? : Char → Option Nat
  | 'x' => some 2
  | 'u' => some 4
  | 'U' => some 8
  | _ => none

/-- The character that a quoted text goes on with, and the text behind it. -/
def unquotedChar? : List Char → Option (Char × List Char)
  | [] => none
  | '\\' :: 'n' :: rest => some ('\n', rest)
  | '\\' :: 'r' :: rest => some ('\r', rest)
  | '\\' :: 't' :: rest => some ('\t', rest)
  | '\\' :: letter :: rest =>
    match escapeWidth? letter with
    | some width => some (Char.ofNat (ofHex (rest.take width)), rest.drop width)
    | none => some (letter, rest)
  | c :: rest => some (c, rest)

theorem unquotedChar?_hex (hc : c.toNat < Nat.pow 16 width) (rest : List Char) :
    (Char.ofNat (ofHex ((hex width c.toNat ++ rest).take width)), (hex width c.toNat ++ rest).drop width) =
      (c, rest) := by
  rw [List.take_left' (length_hex width c.toNat), List.drop_left' (length_hex width c.toNat), ofHex_hex,
    Nat.mod_eq_of_lt hc, Char.ofNat_toNat]

theorem unquotedChar?_quotedChar (hmark : mark = '\'' ∨ mark = '"') (c : Char) (rest : List Char) :
    unquotedChar? (quotedChar mark c ++ rest) = some (c, rest) := by
  unfold quotedChar
  split
  · next h =>
    rcases h with rfl | rfl
    · rcases hmark with rfl | rfl <;> rfl
    · rfl
  next hplain =>
  split
  · next h => rw [h]; rfl
  split
  · next h => rw [h]; rfl
  split
  · next h => rw [h]; rfl
  split
  · -- A backslash would have been escaped.
    have hc : c ≠ '\\' := fun h => hplain (Or.inr h)
    rw [List.singleton_append, unquotedChar?]
    · exact fun _ h _ => hc h
    · exact fun _ h _ => hc h
    · exact fun _ h _ => hc h
    · exact fun _ _ h _ => hc h
  have hlast : c.toNat < 0x100000000 := by
    have hvalid := c.valid
    simp only [UInt32.isValidChar, Nat.isValidChar, Char.toNat_val] at hvalid
    omega
  split
  · next h => exact congrArg some (unquotedChar?_hex h rest)
  split
  · next h => exact congrArg some (unquotedChar?_hex h rest)
  · exact congrArg some (unquotedChar?_hex hlast rest)

theorem flatMap_quotedChar_injective (hmark : mark = '\'' ∨ mark = '"') : ∀ {cs ds : List Char},
    cs.flatMap (quotedChar mark) = ds.flatMap (quotedChar mark) → cs = ds
  | [], [], _ => rfl
  | [], d :: ds, h => by
    have hread := unquotedChar?_quotedChar hmark d (ds.flatMap (quotedChar mark))
    rw [← List.flatMap_cons, ← h] at hread
    cases hread
  | c :: cs, [], h => by
    have hread := unquotedChar?_quotedChar hmark c (cs.flatMap (quotedChar mark))
    rw [← List.flatMap_cons, h] at hread
    cases hread
  | c :: cs, d :: ds, h => by
    have hread := unquotedChar?_quotedChar hmark c (cs.flatMap (quotedChar mark))
    rw [← List.flatMap_cons, h, List.flatMap_cons, unquotedChar?_quotedChar hmark] at hread
    obtain ⟨rfl, hrest⟩ := Prod.mk.inj (Option.some.inj hread)
    rw [flatMap_quotedChar_injective hmark hrest.symm]

theorem quoted_injective (h : quoted s = quoted t) : s = t := by
  obtain ⟨hmark, hbody⟩ := List.cons.inj (String.ofList_injective h)
  rw [hmark] at hbody
  exact String.toList_inj.mp (flatMap_quotedChar_injective (quoteMark_cases t.toList) (List.append_cancel_right hbody))

end FormDirectives.Text
