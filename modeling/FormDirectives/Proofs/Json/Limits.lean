import FormDirectives.Proofs.Json.RoundTrip

/-! What limits the writing of values. There is room for so many arrays and objects, one inside the other, and an integer
    has at most so many digits; a value that keeps to both has a text, and any other has none. What the writing stops at is
    one of the limits that the value does not keep to. -/

namespace FormDirectives.Json

mutual

/-- How many arrays and objects are one inside the other in a value, itself included. -/
def depth : Json → Nat
  | .array items => itemsDepth items + 1
  | .object members => membersDepth members + 1
  | .null | .bool _ | .int _ | .string _ => 0

def itemsDepth : List Json → Nat
  | [] => 0
  | x :: rest => max x.depth (itemsDepth rest)

def membersDepth : List (String × Json) → Nat
  | [] => 0
  | (_, v) :: rest => max v.depth (membersDepth rest)

end

mutual

/-- All integers in a value. -/
def integers : Json → List Int
  | .int n => [n]
  | .array items => itemsIntegers items
  | .object members => membersIntegers members
  | .null | .bool _ | .string _ => []

def itemsIntegers : List Json → List Int
  | [] => []
  | x :: rest => x.integers ++ itemsIntegers rest

def membersIntegers : List (String × Json) → List Int
  | [] => []
  | (_, v) :: rest => v.integers ++ membersIntegers rest

end

/-- The limits of writing, for a number of levels and for integers. -/
def Fits (room levels : Nat) (ns : List Int) : Prop := levels ≤ room ∧ ∀ n ∈ ns, isShort n = true

/-- What is told of a value that is not written holds of it. -/
def WriteError.Explains (e : WriteError) (room levels : Nat) (ns : List Int) : Prop :=
  match e with
  | .nesting => room < levels
  | .digits => ∃ n ∈ ns, isShort n = false

section
variable {room k l : Nat} {ns ms : List Int} {e : WriteError}

theorem fits_max : Fits room (max k l) (ns ++ ms) ↔ Fits room k ns ∧ Fits room l ms := by
  simp only [Fits, Nat.max_le, List.forall_mem_append]
  exact and_and_and_comm

theorem WriteError.Explains.inner (h : e.Explains room k ns) : e.Explains (room + 1) (k + 1) ns := by
  cases e with
  | nesting => exact Nat.succ_lt_succ h
  | digits => exact h

theorem WriteError.Explains.left (h : e.Explains room k ns) : e.Explains room (max k l) (ns ++ ms) := by
  cases e with
  | nesting => exact Nat.lt_of_lt_of_le h (Nat.le_max_left k l)
  | digits => exact h.imp fun _ hn => ⟨List.mem_append_left _ hn.1, hn.2⟩

theorem WriteError.Explains.right (h : e.Explains room l ms) : e.Explains room (max k l) (ns ++ ms) := by
  cases e with
  | nesting => exact Nat.lt_of_lt_of_le h (Nat.le_max_right k l)
  | digits => exact h.imp fun _ hn => ⟨List.mem_append_right _ hn.1, hn.2⟩

end

theorem itemsDepth_le {k : Nat} : ∀ {xs : List Json}, (∀ x ∈ xs, x.depth ≤ k) → itemsDepth xs ≤ k
  | [], _ => Nat.zero_le k
  | x :: _, h => Nat.max_le.mpr ⟨h x List.mem_cons_self, itemsDepth_le fun y hy => h y (List.mem_cons_of_mem x hy)⟩

theorem membersDepth_le {k : Nat} : ∀ {ms : List (String × Json)}, (∀ m ∈ ms, m.2.depth ≤ k) → membersDepth ms ≤ k
  | [], _ => Nat.zero_le k
  | m :: _, h => Nat.max_le.mpr ⟨h m List.mem_cons_self, membersDepth_le fun n hn => h n (List.mem_cons_of_mem m hn)⟩

theorem itemsIntegers_eq : ∀ xs : List Json, itemsIntegers xs = xs.flatMap integers
  | [] => rfl
  | x :: xs => by rw [itemsIntegers, itemsIntegers_eq xs, List.flatMap_cons]

theorem membersIntegers_eq : ∀ ms : List (String × Json), membersIntegers ms = ms.flatMap fun m => m.2.integers
  | [] => rfl
  | (_, v) :: ms => by rw [membersIntegers, membersIntegers_eq ms, List.flatMap_cons]

mutual

/-- Nothing stands in the way exactly if the value keeps to both limits. -/
theorem obstacle?_eq_none : ∀ {room : Nat} {v : Json}, obstacle? room v = none ↔ Fits room v.depth v.integers
  | 0, .array _ | 0, .object _ => by simp [obstacle?, Fits, depth]
  | room + 1, .array items => by
    rw [obstacle?, itemsObstacle?_eq_none, depth, integers, Fits, Fits, Nat.add_le_add_iff_right]
  | room + 1, .object members => by
    rw [obstacle?, membersObstacle?_eq_none, depth, integers, Fits, Fits, Nat.add_le_add_iff_right]
  | _, .int n => by simp [obstacle?, Fits, depth, integers]
  | _, .null | _, .bool _ | _, .string _ => by simp [obstacle?, Fits, depth, integers]

theorem itemsObstacle?_eq_none : ∀ {room : Nat} {xs : List Json},
    itemsObstacle? room xs = none ↔ Fits room (itemsDepth xs) (itemsIntegers xs)
  | _, [] => by simp [itemsObstacle?, Fits, itemsDepth, itemsIntegers]
  | room, x :: xs => by
    rw [itemsObstacle?, Option.or_eq_none_iff, obstacle?_eq_none, itemsObstacle?_eq_none, itemsDepth, itemsIntegers,
      fits_max]

theorem membersObstacle?_eq_none : ∀ {room : Nat} {ms : List (String × Json)},
    membersObstacle? room ms = none ↔ Fits room (membersDepth ms) (membersIntegers ms)
  | _, [] => by simp [membersObstacle?, Fits, membersDepth, membersIntegers]
  | room, (_, v) :: ms => by
    rw [membersObstacle?, Option.or_eq_none_iff, obstacle?_eq_none, membersObstacle?_eq_none, membersDepth,
      membersIntegers, fits_max]

end

mutual

/-- What stands in the way is one of the limits that the value does not keep to. -/
theorem explains_of_obstacle? {e : WriteError} : ∀ {room : Nat} {v : Json}, obstacle? room v = some e →
    e.Explains room v.depth v.integers
  | 0, .array items | 0, .object members => fun h => by
    rw [obstacle?, Option.some.injEq] at h
    exact h ▸ Nat.succ_pos _
  | room + 1, .array items => fun h => (explains_of_itemsObstacle? h).inner
  | room + 1, .object members => fun h => (explains_of_membersObstacle? h).inner
  | _, .int n => fun h => by
    cases hshort : isShort n with
    | true => simp [obstacle?, hshort] at h
    | false =>
      obtain rfl : .digits = e := by simpa [obstacle?, hshort] using h
      exact ⟨n, List.mem_singleton_self n, hshort⟩
  | _, .null | _, .bool _ | _, .string _ => fun h => by simp [obstacle?] at h

theorem explains_of_itemsObstacle? {e : WriteError} : ∀ {room : Nat} {xs : List Json},
    itemsObstacle? room xs = some e → e.Explains room (itemsDepth xs) (itemsIntegers xs)
  | _, [] => nofun
  | room, x :: xs => fun h => by
    rw [itemsObstacle?, Option.or_eq_some_iff] at h
    rcases h with h | ⟨-, h⟩
    · exact (explains_of_obstacle? h).left
    · exact (explains_of_itemsObstacle? h).right

theorem explains_of_membersObstacle? {e : WriteError} : ∀ {room : Nat} {ms : List (String × Json)},
    membersObstacle? room ms = some e → e.Explains room (membersDepth ms) (membersIntegers ms)
  | _, [] => nofun
  | room, (_, v) :: ms => fun h => by
    rw [membersObstacle?, Option.or_eq_some_iff] at h
    rcases h with h | ⟨-, h⟩
    · exact (explains_of_obstacle? h).left
    · exact (explains_of_membersObstacle? h).right

end

end FormDirectives.Json
