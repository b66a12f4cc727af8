import FormDirectives.Json.Reader
import FormDirectives.Json.Writer
import Mathlib.Data.List.TakeWhile

/-! What is written is read back. The reader finds each value where it was written, whatever blanks stand before it
    and whatever comes behind it, but that a number ends only where no digit follows; and a value needs no more
    steps than it has characters. So two values are written alike only if they are the same. -/

namespace FormDirectives.Json
open Reader

/-! ### Strings -/

theorem unit?_control : ∀ n < 0x20, unit? '0' '0' (Nat.digitChar (n / 16)) (Nat.digitChar (n % 16)) = some n := by
  decide

/-- However a character is written, it is read as its code point. -/
theorem units?_stringChar (acc : List Nat) (c : Char) (rest : List Char) :
    units? acc (stringChar c ++ rest) = units? (c.toNat :: acc) rest := by
  unfold stringChar
  split
  · next h => rcases h with rfl | rfl <;> rfl
  split
  · next h => subst h; rfl
  split
  · next h => subst h; rfl
  split
  · next h => subst h; rfl
  split
  · next h => subst h; rfl
  split
  · next h => subst h; rfl
  split
  · next h => simp only [List.cons_append, List.nil_append, units?, unit?_control c.toNat h]
  · next h _ _ _ _ _ _ =>
    rw [not_or] at h
    rw [List.singleton_append, units?]
    · exact h.1
    · exact fun _ _ _ _ _ hc => absurd hc h.2
    · exact fun _ _ hc => absurd hc h.2

theorem units?_stringChars (acc : List Nat) (cs rest : List Char) :
    units? acc (cs.flatMap stringChar ++ '"' :: rest) = some (acc.reverse ++ cs.map Char.toNat, rest) := by
  induction cs generalizing acc with
  | nil => simp [units?]
  | cons c cs ih => simp [List.flatMap_cons, List.append_assoc, units?_stringChar, ih]

/-- No code point of a character is half of a pair. -/
theorem joinUnits_map (cs : List Char) : joinUnits (cs.map Char.toNat) = cs := by
  have hsingle (c : Char) : ¬ (0xd800 ≤ c.toNat ∧ c.toNat < 0xdc00) := by
    have hvalid := c.valid
    simp only [UInt32.isValidChar, Nat.isValidChar, Char.toNat_val] at hvalid
    omega
  induction cs with
  | nil => rfl
  | cons c cs ih =>
    cases cs with
    | nil => simp [joinUnits]
    | cons d cs =>
      have hpair : ¬ (0xd800 ≤ c.toNat ∧ c.toNat < 0xdc00 ∧ 0xdc00 ≤ d.toNat ∧ d.toNat < 0xe000) :=
        fun h => hsingle c ⟨h.1, h.2.1⟩
      rw [List.map_cons] at ih
      rw [List.map_cons, List.map_cons, joinUnits, if_neg hpair, ih, Char.ofNat_toNat]

theorem string?_stringChars (s : String) (rest : List Char) :
    string? (s.toList.flatMap stringChar ++ '"' :: rest) = some (s, rest) := by
  rw [string?, units?_stringChars, Option.map_some, List.reverse_nil, List.nil_append, joinUnits_map,
    String.ofList_toList]

/-! ### Numbers -/

/-- The text does not go on with a digit. -/
def Undigited (rest : List Char) : Prop := ∀ c ∈ rest.head?, c.isDigit = false

theorem natOfDigits_toDigits (n : Nat) : natOfDigits (Nat.toDigits 10 n) = n := by
  have hfold : natOfDigits (Nat.toDigits 10 n) = Nat.ofDigitChars 10 (Nat.toDigits 10 n) 0 := by
    rw [natOfDigits, Nat.ofDigitChars_eq_foldl]
    simp only [Nat.mul_comm 10]
  rw [hfold, Nat.ofDigitChars_ten_toDigits]

theorem span_toDigits (n : Nat) {rest : List Char} (h : Undigited rest) :
    (Nat.toDigits 10 n ++ rest).takeWhile Char.isDigit = Nat.toDigits 10 n ∧
      (Nat.toDigits 10 n ++ rest).dropWhile Char.isDigit = rest := by
  have hdigits : ∀ c ∈ Nat.toDigits 10 n, c.isDigit = true := fun c hc =>
    Nat.isDigit_of_mem_toDigits (by decide) (by decide) hc
  have hrest : rest.takeWhile Char.isDigit = [] ∧ rest.dropWhile Char.isDigit = rest := by
    cases rest with
    | nil => exact ⟨rfl, rfl⟩
    | cons c rest => simp [h c rfl]
  rw [List.takeWhile_append_of_pos hdigits, List.dropWhile_append_of_pos hdigits, hrest.1, hrest.2, List.append_nil]
  exact ⟨rfl, rfl⟩

theorem toList_toString_int (n : Int) : (toString n).toList =
    if n < 0 then '-' :: Nat.toDigits 10 n.natAbs else Nat.toDigits 10 n.natAbs := by
  cases n with
  | ofNat m =>
    have hpos : ¬ Int.ofNat m < 0 := Int.not_lt.mpr (Int.natCast_nonneg m)
    rw [if_neg hpos]
    exact Nat.toList_repr
  | negSucc m =>
    have htext : toString (Int.negSucc m) = "-" ++ Nat.repr (m + 1) := rfl
    rw [if_pos (Int.negSucc_lt_zero m), htext, String.toList_append, Nat.toList_repr]
    rfl

/-- A number begins like no other value, and like no blank. -/
theorem exists_toString_int (n : Int) : ∃ c cs, (toString n).toList = c :: cs ∧
    c ∉ ['n', 't', 'f', '"', '[', '\x7b', ']', ' ', '\n', '\t', '\r'] ∧ (0 ≤ n → c ≠ '-') := by
  rw [toList_toString_int]
  split
  · next hneg => exact ⟨'-', _, rfl, by decide, fun h => absurd hneg (Int.not_lt.mpr h)⟩
  · obtain ⟨c, cs, hcs⟩ := List.exists_cons_of_ne_nil (Nat.toDigits_ne_nil (n := n.natAbs) (b := 10))
    have hdigit : c.isDigit = true :=
      Nat.isDigit_of_mem_toDigits (by decide) (by decide) (hcs ▸ List.mem_cons_self)
    refine ⟨c, cs, hcs, fun hmem => ?_, fun _ hminus => absurd (hminus ▸ hdigit) (by decide)⟩
    have hnone : ['n', 't', 'f', '"', '[', '\x7b', ']', ' ', '\n', '\t', '\r'].any Char.isDigit = false := by decide
    exact List.any_eq_false.mp hnone c hmem hdigit

theorem int?_toString (n : Int) {rest : List Char} (h : Undigited rest) :
    int? ((toString n).toList ++ rest) = some (n, rest) := by
  obtain ⟨htake, hdrop⟩ := span_toDigits n.natAbs h
  obtain ⟨c, cs, htext, -, hsign⟩ := exists_toString_int n
  rw [toList_toString_int] at htext ⊢
  split
  · rw [List.cons_append, int?]
    simp only [htake, hdrop, if_neg Nat.toDigits_ne_nil, natOfDigits_toDigits]
    congr
    omega
  · next hpos =>
    rw [if_neg hpos] at htext
    rw [int?]
    · simp only [htake, hdrop, if_neg Nat.toDigits_ne_nil, natOfDigits_toDigits]
      congr
      omega
    · rw [htext, List.cons_append]
      exact fun _ hminus => hsign (Int.not_lt.mp hpos) (List.cons.inj hminus).1

/-! ### Values -/

theorem skipSpace_newline (depth : Nat) (rest : List Char) : skipSpace (newline depth ++ rest) = skipSpace rest := by
  refine List.dropWhile_append_of_pos fun c hc => ?_
  rcases List.mem_cons.mp hc with rfl | hc
  · rfl
  · rw [List.eq_of_mem_replicate hc]
    rfl

theorem skipSpace_cons {c : Char} (h : isSpace c = false) (cs : List Char) : skipSpace (c :: cs) = c :: cs :=
  List.dropWhile_cons_of_neg (by simp [h])

/-- A value begins with no blank, and not as an array ends. -/
theorem exists_chars (depth : Nat) (v : Json) : ∃ c cs, chars depth v = c :: cs ∧ isSpace c = false ∧ c ≠ ']' := by
  match v with
  | .null | .bool true | .bool false | .string s | .array [] | .array (x :: rest) | .object [] | .object ((k, v) :: rest) =>
    exact ⟨_, _, rfl, by decide, by decide⟩
  | .int n =>
    obtain ⟨c, cs, htext, hother, -⟩ := exists_toString_int n
    simp only [List.mem_cons, List.not_mem_nil, or_false, not_or] at hother
    exact ⟨c, cs, by rw [chars, htext], by simp [isSpace, hother], by simp [hother]⟩

theorem skipSpace_chars (depth : Nat) (v : Json) (rest : List Char) :
    skipSpace (chars depth v ++ rest) = chars depth v ++ rest := by
  obtain ⟨c, cs, hchars, hspace, -⟩ := exists_chars depth v
  rw [hchars, List.cons_append, skipSpace_cons hspace]

theorem value?_number {fuel : Nat} {cs rest : List Char} {n : Int} (hcs : skipSpace cs = (toString n).toList ++ rest)
    (hrest : Undigited rest) : value? (fuel + 1) cs = some (.int n, rest) := by
  have hread := int?_toString n hrest
  obtain ⟨c, ds, htext, hother, -⟩ := exists_toString_int n
  have hne {d : Char} {es : List Char} (hd : d ∈ ['n', 't', 'f', '"', '[', '\x7b', ']', ' ', '\n', '\t', '\r']) :
      c :: ds ++ rest ≠ d :: es := fun h => hother ((List.cons.inj h).1 ▸ hd)
  rw [htext] at hcs hread
  rw [value?, hcs]
  split
  case h_7 => rw [hread, Option.map_some]
  all_goals next heq => exact absurd heq (hne (by decide))

theorem undigited_items (depth depth' : Nat) (xs : List Json) (rest : List Char) :
    Undigited (itemsChars depth xs ++ (newline depth' ++ ']' :: rest)) := by
  cases xs <;> simp [Undigited, itemsChars, newline]

theorem undigited_members (depth depth' : Nat) (ms : List (String × Json)) (rest : List Char) :
    Undigited (membersChars depth ms ++ (newline depth' ++ '\x7d' :: rest)) := by
  cases ms <;> simp [Undigited, membersChars, newline]

mutual

/-- A value is read where it is written, in no more steps than it has characters. -/
theorem value?_chars : ∀ (v : Json) {depth fuel : Nat} {cs rest : List Char},
    skipSpace cs = chars depth v ++ rest → Undigited rest → (chars depth v).length ≤ fuel →
    value? fuel cs = some (v, rest)
  | v, depth, 0, _, _, _, _, hfuel => by
    obtain ⟨c, cs, hchars, -⟩ := exists_chars depth v
    rw [hchars] at hfuel
    exact absurd hfuel (Nat.not_succ_le_zero cs.length)
  | .null, _, fuel + 1, _, _, hcs, _, _ => by
    rw [value?, hcs]
    rfl
  | .bool true, _, fuel + 1, _, _, hcs, _, _ => by
    rw [value?, hcs]
    rfl
  | .bool false, _, fuel + 1, _, _, hcs, _, _ => by
    rw [value?, hcs]
    rfl
  | .int n, _, fuel + 1, _, _, hcs, hrest, _ => value?_number hcs hrest
  | .string s, _, fuel + 1, cs, rest, hcs, _, _ => by
    have hstring : skipSpace cs = '"' :: (s.toList.flatMap stringChar ++ '"' :: rest) := by
      rw [hcs, chars, stringChars, List.cons_append, List.append_assoc, List.singleton_append]
    rw [value?, hstring]
    simp only [string?_stringChars, Option.map_some]
  | .array [], _, fuel + 1, cs, rest, hcs, _, _ => by
    rw [value?, hcs]
    rfl
  | .array (x :: xs), depth, fuel + 1, cs, rest, hcs, _, hfuel => by
    have hopened : skipSpace cs = '[' :: (newline (depth + 1) ++ (chars (depth + 1) x ++
        (itemsChars (depth + 1) xs ++ (newline depth ++ ']' :: rest)))) := by
      rw [hcs, chars, block]
      simp only [List.append_assoc, List.cons_append, List.nil_append]
    have hfirst := skipSpace_chars (depth + 1) x (itemsChars (depth + 1) xs ++ (newline depth ++ ']' :: rest))
    have hlength : (chars (depth + 1) x).length + (itemsChars (depth + 1) xs).length < fuel := by
      simp only [chars, block, newline, List.length_cons, List.length_append] at hfuel
      omega
    have hitems := items?_chars x xs hfirst hlength
    obtain ⟨c, ds, hchars, -, hc⟩ := exists_chars (depth + 1) x
    rw [value?, hopened]
    simp only [skipSpace_newline, hfirst]
    split
    · next heq =>
      rw [hchars, List.cons_append] at heq
      exact absurd (List.cons.inj heq).1 hc
    · rw [hitems, Option.map_some]
  | .object [], _, fuel + 1, cs, rest, hcs, _, _ => by
    rw [value?, hcs]
    rfl
  | .object ((k, v) :: ms), depth, fuel + 1, cs, rest, hcs, _, hfuel => by
    have hopened : skipSpace cs = '\x7b' :: (newline (depth + 1) ++ (stringChars k ++ ':' :: ' ' ::
        (chars (depth + 1) v ++ (membersChars (depth + 1) ms ++ (newline depth ++ '\x7d' :: rest))))) := by
      rw [hcs, chars, block]
      simp only [List.append_assoc, List.cons_append, List.nil_append]
    have hfirst : skipSpace (stringChars k ++ ':' :: ' ' :: (chars (depth + 1) v ++ (membersChars (depth + 1) ms ++
        (newline depth ++ '\x7d' :: rest)))) = _ := skipSpace_cons rfl _
    have hlength : (stringChars k).length + (chars (depth + 1) v).length + (membersChars (depth + 1) ms).length <
        fuel := by
      simp only [chars, block, newline, List.length_cons, List.length_append] at hfuel
      omega
    have hmembers := members?_chars k v ms hfirst hlength
    rw [value?, hopened]
    simp only [skipSpace_newline, hfirst]
    split
    · next heq => cases heq
    · exact congrArg _ hmembers
termination_by v => sizeOf v

theorem items?_chars : ∀ (x : Json) (xs : List Json) {depth depth' fuel : Nat} {cs rest : List Char},
    skipSpace cs = chars depth x ++ (itemsChars depth xs ++ (newline depth' ++ ']' :: rest)) →
    (chars depth x).length + (itemsChars depth xs).length < fuel → items? fuel cs = some (x :: xs, rest)
  | x, xs, depth, depth', fuel + 1, cs, rest, hcs, hfuel => by
    have hread := value?_chars x hcs (undigited_items depth depth' xs rest) (show _ ≤ fuel by omega)
    rw [items?, hread]
    match xs with
    | [] =>
      have hend : skipSpace (newline depth' ++ ']' :: rest) = ']' :: rest := by
        rw [skipSpace_newline, skipSpace_cons rfl]
      simp only [itemsChars, List.nil_append, hend]
    | y :: ys =>
      have hcomma : skipSpace (itemsChars depth (y :: ys) ++ (newline depth' ++ ']' :: rest)) = ',' :: (newline depth ++
          (chars depth y ++ (itemsChars depth ys ++ (newline depth' ++ ']' :: rest)))) := by
        rw [itemsChars, List.cons_append, skipSpace_cons rfl]
        simp only [List.append_assoc]
      have hnext := skipSpace_chars depth y (itemsChars depth ys ++ (newline depth' ++ ']' :: rest))
      have hlength : (chars depth y).length + (itemsChars depth ys).length < fuel := by
        simp only [itemsChars, newline, List.length_cons, List.length_append] at hfuel
        omega
      have hitems := items?_chars y ys ((skipSpace_newline depth _).trans hnext) hlength
      simp only [hcomma, hitems, Option.map_some]
termination_by x xs => sizeOf (x :: xs)

theorem members?_chars : ∀ (k : String) (v : Json) (ms : List (String × Json)) {depth depth' fuel : Nat}
    {cs rest : List Char}, skipSpace cs = stringChars k ++ ':' :: ' ' :: (chars depth v ++ (membersChars depth ms ++
      (newline depth' ++ '\x7d' :: rest))) →
    (stringChars k).length + (chars depth v).length + (membersChars depth ms).length < fuel →
    members? fuel cs = some ((k, v) :: ms, rest)
  | k, v, ms, depth, depth', fuel + 1, cs, rest, hcs, hfuel => by
    have hkey : skipSpace cs = '"' :: (k.toList.flatMap stringChar ++ '"' :: ':' :: ' ' :: (chars depth v ++
        (membersChars depth ms ++ (newline depth' ++ '\x7d' :: rest)))) := by
      rw [hcs, stringChars, List.cons_append, List.append_assoc, List.singleton_append]
    have hcolon (cs : List Char) : skipSpace (':' :: cs) = ':' :: cs := skipSpace_cons rfl cs
    have hvalue : skipSpace (' ' :: (chars depth v ++ (membersChars depth ms ++ (newline depth' ++ '\x7d' :: rest)))) =
        chars depth v ++ (membersChars depth ms ++ (newline depth' ++ '\x7d' :: rest)) :=
      skipSpace_chars depth v _
    have hread := value?_chars v hvalue (undigited_members depth depth' ms rest) (show _ ≤ fuel by omega)
    rw [members?, hkey]
    simp only [string?_stringChars, hcolon, hread]
    match ms with
    | [] =>
      have hend : skipSpace (newline depth' ++ '\x7d' :: rest) = '\x7d' :: rest := by
        rw [skipSpace_newline, skipSpace_cons rfl]
      simp only [membersChars, List.nil_append, hend]
    | (l, w) :: ms =>
      have hcomma : skipSpace (membersChars depth ((l, w) :: ms) ++ (newline depth' ++ '\x7d' :: rest)) = ',' ::
          (newline depth ++ (stringChars l ++ ':' :: ' ' :: (chars depth w ++ (membersChars depth ms ++
            (newline depth' ++ '\x7d' :: rest))))) := by
        rw [membersChars, List.cons_append, skipSpace_cons rfl]
        simp only [List.append_assoc, List.cons_append, List.nil_append]
      have hnext : skipSpace (stringChars l ++ ':' :: ' ' :: (chars depth w ++ (membersChars depth ms ++
          (newline depth' ++ '\x7d' :: rest)))) = _ := skipSpace_cons rfl _
      have hlength : (stringChars l).length + (chars depth w).length + (membersChars depth ms).length < fuel := by
        simp only [membersChars, newline, List.length_cons, List.length_append] at hfuel
        omega
      have hmembers := members?_chars l w ms ((skipSpace_newline depth _).trans hnext) hlength
      simp only [hcomma]
      exact congrArg _ hmembers
termination_by k v ms => sizeOf ((k, v) :: ms)

end

/-- The value that a text begins with is read if there are only blanks behind it. -/
theorem read?_chars (v : Json) {rest : List Char} (hend : Undigited rest) (hblank : skipSpace rest = []) :
    read? (String.ofList (chars 0 v ++ rest)) = some v := by
  have hread := value?_chars v (skipSpace_chars 0 v rest) hend
    (show _ ≤ 2 * (chars 0 v ++ rest).length + 2 by simp only [List.length_append]; omega)
  rw [read?, String.toList_ofList]
  simp only [hread, hblank, if_true]

/-- What is written is read back; if it is written with its members sorted, they are read in that order. -/
theorem read?_write (sorted : Bool) (v : Json) : read? (write sorted v) = some (if sorted then sortKeys v else v) := by
  have hend : Undigited ['\n'] := by simp [Undigited]
  exact read?_chars (if sorted then sortKeys v else v) hend rfl

theorem write_injective {v w : Json} (h : write false v = write false w) : v = w := by
  have hv := read?_write false v
  rw [h, read?_write] at hv
  exact (Option.some.inj hv).symm

end FormDirectives.Json
