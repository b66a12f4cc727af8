/-! Edit scripts. A script tells two lists of lines apart into parts that both share and parts where the one has
    some lines and the other has others, so each list is read off it again. The shared part found first is the
    longest run of equal lines that are rare enough to count, stretched over all equal lines on both sides; the
    lists before and after it are compared in the same way. -/

namespace FormDirectives.Diff

inductive Edit
  | keep (lines : List String)
  | change (old new : List String)
  deriving DecidableEq, Repr

namespace Edit

def old : Edit → List String
  | keep ls => ls
  | change old _ => old

def new : Edit → List String
  | keep ls => ls
  | change _ new => new

end Edit

/-! ### Shared lines -/

def sharedPrefixLength : List String → List String → Nat
  | a :: as, b :: bs => if a = b then sharedPrefixLength as bs + 1 else 0
  | _, _ => 0

def sharedSuffixLength (as bs : List String) : Nat := sharedPrefixLength as.reverse bs.reverse

theorem sharedPrefixLength_le : ∀ as bs : List String,
    sharedPrefixLength as bs ≤ as.length ∧ sharedPrefixLength as bs ≤ bs.length
  | [], bs => by simp [sharedPrefixLength]
  | _ :: _, [] => by simp [sharedPrefixLength]
  | a :: as, b :: bs => by
    have := sharedPrefixLength_le as bs
    simp only [sharedPrefixLength, List.length_cons]
    split <;> omega

/-- The longest run found so far: its length and where it starts in the two lists. -/
structure Run where
  length : Nat := 0
  old : Nat := 0
  new : Nat := 0

/-- The lengths of the runs that end at one old line and at each new line, from those of the old line before
    it. -/
def runRow (counts : String → Bool) (line : String) (new : List String) (before : List Nat) : List Nat :=
  if counts line then List.zipWith (fun n k => if n = line then k + 1 else 0) new (0 :: before)
  else new.map fun _ => 0

/-- The first longest run of equal lines that count. -/
def longestRun (counts : String → Bool) (old new : List String) : Run :=
  (old.zipIdx.foldl (fun (before, best) (line, i) =>
    let row := runRow counts line new before
    (row, row.zipIdx.foldl (fun best (k, j) =>
      if best.length < k then { length := k, old := i + 1 - k, new := j + 1 - k } else best) best))
    (new.map fun _ => 0, ({} : Run))).2

/-! ### Scripts -/

/-- Where the shared part lies: so many lines before it in either list, and its length. -/
structure Split where
  old : Nat
  new : Nat
  length : Nat

def split (counts : String → Bool) (old new : List String) : Split :=
  let run := longestRun counts old new
  let back := sharedSuffixLength (old.take run.old) (new.take run.new)
  let ahead := sharedPrefixLength (old.drop run.old) (new.drop run.new)
  { old := run.old - back, new := run.new - back, length := back + ahead }

def script (counts : String → Bool) (old new : List String) : List Edit :=
  let s := split counts old new
  if _h : 0 < s.length ∧ s.old + s.length ≤ old.length then
    script counts (old.take s.old) (new.take s.new) ++
      .keep ((old.drop s.old).take s.length) ::
      script counts (old.drop (s.old + s.length)) (new.drop (s.new + s.length))
  else if old = [] ∧ new = [] then [] else [.change old new]
termination_by old.length
decreasing_by
  · rw [List.length_take, show (split counts old new).old = s.old from rfl]; omega
  · rw [List.length_drop, show (split counts old new).old = s.old from rfl,
      show (split counts old new).length = s.length from rfl]
    omega

/-- Neighbouring shared parts are one. -/
def merge : List Edit → List Edit
  | .keep as :: rest =>
    match merge rest with
    | .keep bs :: rest' => .keep (as ++ bs) :: rest'
    | rest' => .keep as :: rest'
  | e :: rest => e :: merge rest
  | [] => []

/-- A line counts if the new list is short or if it comes in at most one of a hundred of its lines, and once
    more. -/
def isRare (new : List String) (line : String) : Bool :=
  new.length < 200 || new.count line ≤ new.length / 100 + 1

def compare (old new : List String) : List Edit := merge (script (isRare new) old new)

end FormDirectives.Diff
