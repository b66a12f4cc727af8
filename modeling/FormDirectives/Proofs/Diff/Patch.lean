import FormDirectives.Proofs.Diff.Hunks
import FormDirectives.Proofs.Text.Lines

/-! Patches. A unified diff is read line by line: two lines that name the texts, and then hunks, each of them a header
    with the ranges that it covers and below it the lines that it keeps, deletes and inserts. It applies to a text that
    has the lines that are kept or deleted where the headers say. Hunks that lead from the one list of lines to the
    other apply to the one and make the other of it. -/

namespace FormDirectives.Diff.Patch

/-- A line below a header. -/
inductive Entry
  | keep (line : List Char)
  | delete (line : List Char)
  | insert (line : List Char)
  deriving DecidableEq

structure Range where
  before : Nat
  length : Nat
  deriving DecidableEq

structure Hunk where
  old : Range
  new : Range
  entries : List Entry
  deriving DecidableEq

/-! ### Reading -/

def number? (cs : List Char) : Option (Nat × List Char) :=
  let digits := cs.takeWhile Char.isDigit
  if digits = [] then none else some (Nat.ofDigitChars 10 digits 0, cs.dropWhile Char.isDigit)

def length? : List Char → Option (Nat × List Char)
  | ',' :: rest => number? rest
  | rest => some (1, rest)

/-- A range is given by its first line and its length, which is left out if it is one. A range without a line is given
    by the line before it. -/
def range? (cs : List Char) : Option (Range × List Char) := do
  let (first, rest) ← number? cs
  let (length, rest) ← length? rest
  if length = 0 then some ({ before := first, length }, rest)
  else if first = 0 then none
  else some ({ before := first - 1, length }, rest)

def header? : List Char → Option (Range × Range)
  | '@' :: '@' :: ' ' :: '-' :: cs => do
    match ← range? cs with
    | (old, ' ' :: '+' :: cs) =>
      match ← range? cs with
      | (new, [' ', '@', '@']) => some (old, new)
      | _ => none
    | _ => none
  | _ => none

/-- The hunks that lines show, and the entries before the first header. -/
def hunks? : List (List Char) → Option (List Entry × List Hunk)
  | [] => some ([], [])
  | line :: rest => do
    let (entries, hs) ← hunks? rest
    match line with
    | ' ' :: l => some (.keep l :: entries, hs)
    | '-' :: l => some (.delete l :: entries, hs)
    | '+' :: l => some (.insert l :: entries, hs)
    | _ =>
      let (old, new) ← header? line
      some ([], { old, new, entries } :: hs)

def read? (diff : List Char) : Option (List Hunk) :=
  match Text.feedLines diff with
  | ('-' :: '-' :: '-' :: ' ' :: _) :: ('+' :: '+' :: '+' :: ' ' :: _) :: rest =>
    match hunks? rest with
    | some ([], hs) => some hs
    | _ => none
  | _ => none

/-! ### Applying -/

/-- What the entries of a hunk make of the lines that it starts at, and the lines behind it. -/
def applyEntries : List Entry → List (List Char) → Option (List (List Char) × List (List Char))
  | [], ls => some ([], ls)
  | .keep l :: es, m :: ls => if l = m then (applyEntries es ls).map fun r => (m :: r.1, r.2) else none
  | .delete l :: es, m :: ls => if l = m then applyEntries es ls else none
  | .insert l :: es, ls => (applyEntries es ls).map fun r => (l :: r.1, r.2)
  | _, [] => none

/-- Applies hunks to the lines behind the first `i`, of which `j` lines were made. Every hunk has to start and end where
    its header says, in the old lines as well as in the new ones. -/
def applyHunks (i j : Nat) : List Hunk → List (List Char) → Option (List (List Char))
  | [], ls => some ls
  | h :: hs, ls =>
    let gap := h.old.before - i
    if i ≤ h.old.before ∧ h.new.before = j + gap ∧ gap ≤ ls.length then
      match applyEntries h.entries (ls.drop gap) with
      | some (made, rest) =>
        if made.length = h.new.length ∧ h.old.length + rest.length = (ls.drop gap).length then
          (applyHunks (h.old.before + h.old.length) (h.new.before + h.new.length) hs rest).map fun tail =>
            ls.take gap ++ (made ++ tail)
        else none
      | none => none
    else none

/-- The text that a diff makes of a text, all of its lines ended. -/
def patched? (diff text : String) : Option String := do
  let hs ← read? diff.toList
  let ls ← applyHunks 0 0 hs (Text.feedLines text.toList)
  return String.ofList (ls.flatMap (· ++ ['\n']))

/-! ### Hunks of a comparison -/

/-- A line without its end. -/
def body (line : String) : List Char := line.toList.dropLast

def entries : Edit → List Entry
  | .keep ls => ls.map fun l => .keep (body l)
  | .change old new => (old.map fun l => .delete (body l)) ++ new.map fun l => .insert (body l)

def ofEdits (i j : Nat) (edits : List Edit) : Hunk where
  old := { before := i, length := (edits.flatMap Edit.old).length }
  new := { before := j, length := (edits.flatMap Edit.new).length }
  entries := edits.flatMap entries

def ofLocated (hunk : List Located) : Hunk :=
  ofEdits ((hunk.head?.map Located.old).getD 0) ((hunk.head?.map Located.new).getD 0) (hunk.map Located.edit)

section
variable {i j : Nat} {edits : List Edit} {old new : List String} {hs : List (List Located)}

theorem ofLocated_locate (h : locate i j edits ≠ []) : ofLocated (locate i j edits) = ofEdits i j edits := by
  rw [ofLocated, map_edit_locate]
  cases edits with
  | nil => exact absurd rfl h
  | cons e edits => rfl

theorem applyEntries_keep (ls : List String) (es : List Entry) (rest : List (List Char)) :
    applyEntries ((ls.map fun l => .keep (body l)) ++ es) (ls.map body ++ rest) =
      (applyEntries es rest).map fun r => (ls.map body ++ r.1, r.2) := by
  induction ls with
  | nil => simp
  | cons l ls ih => simp [applyEntries, ih, Function.comp_def]

theorem applyEntries_delete (ls : List String) (es : List Entry) (rest : List (List Char)) :
    applyEntries ((ls.map fun l => .delete (body l)) ++ es) (ls.map body ++ rest) = applyEntries es rest := by
  induction ls with
  | nil => simp
  | cons l ls ih => simp [applyEntries, ih]

theorem applyEntries_insert (ls : List String) (es : List Entry) (rest : List (List Char)) :
    applyEntries ((ls.map fun l => .insert (body l)) ++ es) rest =
      (applyEntries es rest).map fun r => (ls.map body ++ r.1, r.2) := by
  induction ls with
  | nil => simp
  | cons l ls ih => simp [applyEntries, ih, Function.comp_def]

/-- The entries of edits turn the lines of the one list into those of the other. -/
theorem applyEntries_edits (edits : List Edit) (rest : List (List Char)) :
    applyEntries (edits.flatMap entries) ((edits.flatMap Edit.old).map body ++ rest) =
      some ((edits.flatMap Edit.new).map body, rest) := by
  induction edits with
  | nil => simp [applyEntries]
  | cons e edits ih =>
    rw [List.flatMap_cons, List.flatMap_cons, List.flatMap_cons, List.map_append, List.map_append, List.append_assoc]
    cases e with
    | keep ls => rw [entries, Edit.old, Edit.new, applyEntries_keep, ih, Option.map_some]
    | change old new =>
      rw [entries, Edit.old, Edit.new, List.append_assoc, applyEntries_delete, applyEntries_insert, ih, Option.map_some]

/-- A hunk that starts and ends where it says is applied to its own lines, and those before it stay. -/
theorem applyHunks_ofEdits (i j : Nat) (gap rest : List (List Char)) (edits : List Edit) (hs : List Hunk) :
    applyHunks i j (ofEdits (i + gap.length) (j + gap.length) edits :: hs)
        (gap ++ ((edits.flatMap Edit.old).map body ++ rest)) =
      (applyHunks (i + gap.length + (edits.flatMap Edit.old).length) (j + gap.length + (edits.flatMap Edit.new).length)
        hs rest).map fun tail => gap ++ ((edits.flatMap Edit.new).map body ++ tail) := by
  simp only [applyHunks, ofEdits, Nat.add_sub_cancel_left, List.drop_left, List.take_left, applyEntries_edits,
    List.length_map, List.length_append, Nat.le_add_right, and_self, if_true]

/-- Hunks that lead from the one list to the other apply to the one and make the other of it. -/
theorem applyHunks_of_leads (h : Leads i j hs old new) (hne : ∀ hunk ∈ hs, hunk ≠ []) :
    applyHunks i j (hs.map ofLocated) (old.map body) = some (new.map body) := by
  induction h with
  | done => rfl
  | @hunk i j gap edits hs old new h ih =>
    have happly := applyHunks_ofEdits i j (gap.map body) (old.map body) edits (hs.map ofLocated)
    rw [List.length_map, ih fun hunk hmem => hne hunk (List.mem_cons_of_mem _ hmem)] at happly
    rw [List.map_cons, ofLocated_locate (hne _ List.mem_cons_self)]
    simp only [List.map_append]
    exact happly

end

end FormDirectives.Diff.Patch
