import FormDirectives.OrderedMap
import FormDirectives.Text.Blank

/-! The properties of a directive: `key="value"` pairs, found from left to right in the text after its name.
    A key is a run of word characters, a value holds no double quote, and whatever lies between two pairs is
    passed over. -/

namespace FormDirectives

abbrev Props := OrderedMap String String

namespace Props
open Text

/-- The value of a key, empty if it is missing. -/
def text (p : Props) (key : String) : String := p.getD key ""

/-- The value of a key, if there is one that is not empty. -/
def nonempty? (p : Props) (key : String) : Option String := (p.get? key).filter (· ≠ "")

theorem ne_of_nonempty? {p : Props} {key value : String} (h : p.nonempty? key = some value) : value ≠ "" := by
  simpa using (Option.filter_eq_some_iff.mp h).2

/-! ### Finding pairs -/

abbrev Pair := List Char × List Char

/-- The value that starts the text and its closing quote taken off. -/
def value? (cs : List Char) : Option (List Char × { rest : List Char // rest.length < cs.length }) :=
  match h : cs.dropWhile (· ≠ '"') with
  | [] => none
  | _ :: rest => some (cs.takeWhile (· ≠ '"'), ⟨rest, by
      have := (List.dropWhile_sublist (· ≠ '"') (l := cs)).length_le
      rw [h, List.length_cons] at this
      omega⟩)

/-- The pair that starts the text, and the text after it. -/
def pair? (cs : List Char) : Option (Pair × { rest : List Char // rest.length < cs.length }) :=
  let key := cs.takeWhile isWord
  if key = [] then none else
    match h : cs.dropWhile isWord with
    | '=' :: '"' :: body => (value? body).map fun r => ((key, r.1), ⟨r.2.1, by
        have hd := (List.dropWhile_sublist isWord (l := cs)).length_le
        have hr := r.2.2
        simp only [h, List.length_cons] at hd
        omega⟩)
    | _ => none

/-- Every pair, each looked for from the first position after the one before it. -/
def pairs (cs : List Char) : List Pair :=
  match cs with
  | [] => []
  | c :: rest =>
    match pair? (c :: rest) with
    | some (p, ⟨after, _shorter⟩) => p :: pairs after
    | none => pairs rest
termination_by cs.length
decreasing_by
  · exact _shorter
  · exact Nat.lt_succ_self rest.length

/-- A key that comes again keeps its place and takes the later value. -/
def ofPairs (ps : List Pair) : Props :=
  OrderedMap.ofList (ps.map fun p => (String.ofList p.1, String.ofList p.2))

def read (rest : String) : Props := ofPairs (pairs rest.toList)

end Props
end FormDirectives
