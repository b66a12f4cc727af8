/-! Lines of a text. A text read from a file has its line ends normalised to line feeds; a comparison of
    texts cuts them into lines that keep their ends, at every character that Unicode or ASCII counts as a
    line boundary. -/

namespace FormDirectives.Text

/-- Turns a carriage return, and a carriage return with its line feed, into one line feed. -/
def normalizeNewlines : List Char → List Char
  | [] => []
  | '\r' :: '\n' :: rest => '\n' :: normalizeNewlines rest
  | c :: rest => (if c = '\r' then '\n' else c) :: normalizeNewlines rest

def isLineEnd (c : Char) : Bool :=
  (0xa ≤ c.toNat && c.toNat ≤ 0xd) || (0x1c ≤ c.toNat && c.toNat ≤ 0x1e) || c.toNat = 0x85 ||
    c.toNat = 0x2028 || c.toNat = 0x2029

/-- The first line with its end, and the text after it. -/
def firstLine (cs : List Char) : List Char × List Char :=
  let text := cs.takeWhile fun c => !isLineEnd c
  match cs.dropWhile fun c => !isLineEnd c with
  | '\r' :: '\n' :: rest => (text ++ ['\r', '\n'], rest)
  | c :: rest => (text ++ [c], rest)
  | [] => (text, [])

theorem firstLine_append (cs : List Char) : (firstLine cs).1 ++ (firstLine cs).2 = cs := by
  have h := cs.takeWhile_append_dropWhile (p := fun c => !isLineEnd c)
  unfold firstLine
  split <;> next hd => rw [hd] at h; simpa using h

theorem firstLine_ne_nil {cs : List Char} (h : cs ≠ []) : (firstLine cs).1 ≠ [] := by
  have happ := cs.takeWhile_append_dropWhile (p := fun c => !isLineEnd c)
  unfold firstLine
  split
  · simp
  · simp
  · next hd => rw [hd, List.append_nil] at happ; simpa [happ] using h

/-- Every line with its end; joined together they are the text again. -/
def linesWithEnds (cs : List Char) : List (List Char) :=
  if h : cs = [] then [] else
    have : (firstLine cs).2.length < cs.length := by
      have hl := congrArg List.length (firstLine_append cs)
      have := List.length_pos_iff.mpr (firstLine_ne_nil h)
      simp only [List.length_append] at hl
      omega
    (firstLine cs).1 :: linesWithEnds (firstLine cs).2
termination_by cs.length

theorem flatten_linesWithEnds (cs : List Char) : (linesWithEnds cs).flatten = cs := by
  fun_induction linesWithEnds cs with
  | case1 => rfl
  | case2 cs h _ ih => rw [List.flatten_cons, ih, firstLine_append]

end FormDirectives.Text
