import FormDirectives.Proofs.Cli.Words

/-! One more flag on a command line. The words of a command line either end its reading with an error or are noted one
    after the other, and which of these they do depends on the words alone. A command line that is read therefore starts
    with the name of its command, and a flag that is put behind that name is noted before everything else: the other
    words are read as before. -/

namespace FormDirectives.Cli

/-! ### What the words note -/

/-- What a word notes in what is found. -/
inductive Note
  | left (word : String)
  | given (o : Opt) (value : String)
  deriving DecidableEq, Repr

namespace Note

def apply (f : Found) : Note → Found
  | left word => f.leave word
  | given o value => f.set o value

/-- A word notes itself as left over, or its option. Options that end the reading note nothing. -/
inductive Of : String × Word → Note → Prop
  | left (v : String × Word) : Of v (.left v.1)
  | given {w : String} {o : Opt} {attached : Attached} (value : String)
      (hacts : o.valueName = none → o.name ≠ "--help" ∧ o.name ≠ "--version") :
      Of (w, .option o attached) (.given o value)

end Note

/-- The reading of the words ends with one error, whatever was found before. -/
def Refused (c : Option Command) (opts : List Opt) (words : List (String × Word)) : Prop :=
  ∃ e, ∀ f, readWords c opts words f = .error e

/-- The first word is noted, whatever was found before, and the reading goes on with what it leaves of the others. -/
def Noted (c : Option Command) (opts : List Opt) (v : String × Word) (words : List (String × Word)) : Prop :=
  ∃ n rest, Note.Of v n ∧ rest <:+ words ∧ ∀ f, readWords c opts (v :: words) f = readWords c opts rest (n.apply f)

section
variable {opts : List Opt} {c : Option Command} {o : Opt} {attached : Attached} {kind : Word} {w : String}
  {words : List (String × Word)}

theorem act_cases (c : Option Command) (o : Opt) :
    (∃ e, ∀ f, act c o f = .error e) ∨
      (o.name ≠ "--help" ∧ o.name ≠ "--version") ∧ ∀ f, act c o f = .ok (f.set o "") := by
  unfold act
  split
  · exact .inl ⟨_, fun _ => rfl⟩
  · next hhelp =>
    split
    · exact .inl ⟨_, fun _ => rfl⟩
    · next hversion => exact .inr ⟨⟨hhelp, hversion⟩, fun _ => rfl⟩

theorem readWords_noValue (c : Option Command) (opts : List Opt) (w : String) (attached : Attached)
    (words : List (String × Word)) (hvalue : o.valueName = none) :
    Refused c opts ((w, .option o attached) :: words) ∨
      ∀ f, readWords c opts ((w, .option o attached) :: words) f = (act c o f >>= readWords c opts words) := by
  cases attached with
  | nothing =>
    refine .inr fun f => ?_
    conv => lhs; unfold readWords
    simp only [hvalue]
  | equals value =>
    refine .inl ⟨.usage c (.unusedValue o value), fun f => ?_⟩
    unfold readWords
    simp only [hvalue]
  | direct value =>
    cases hcluster : checkCluster o opts (.direct value) (w.length + 1) with
    | error e =>
      refine .inl ⟨.usage c e, fun f => ?_⟩
      unfold readWords
      simp only [hvalue, hcluster]
    | ok =>
      refine .inr fun f => ?_
      conv => lhs; unfold readWords
      simp only [hvalue, hcluster]

theorem refused_or_noted_of_noValue (hvalue : o.valueName = none) :
    Refused c opts ((w, .option o attached) :: words) ∨ Noted c opts (w, .option o attached) words := by
  rcases readWords_noValue c opts w attached words hvalue with hrefused | hread
  · exact .inl hrefused
  · rcases act_cases c o with ⟨e, he⟩ | ⟨hacts, hset⟩
    · exact .inl ⟨e, fun f => by rw [hread, he]; rfl⟩
    · exact .inr ⟨.given o "", words, .given "" fun _ => hacts, List.suffix_rfl, fun f => by rw [hread, hset]; rfl⟩

theorem refused_or_noted_of_valued {valueName : String} (hvalue : o.valueName = some valueName) :
    Refused c opts ((w, .option o attached) :: words) ∨ Noted c opts (w, .option o attached) words := by
  have hacts : o.valueName = none → o.name ≠ "--help" ∧ o.name ≠ "--version" := fun hnone => by
    rw [hvalue] at hnone
    cases hnone
  cases attached with
  | equals value | direct value =>
    refine .inr ⟨.given o value, words, .given value hacts, List.suffix_rfl, fun f => ?_⟩
    conv => lhs; unfold readWords
    simp only [hvalue]
    rfl
  | nothing =>
    by_cases hnext : ∃ value rest, words = (value, .argument) :: rest
    · obtain ⟨value, rest, rfl⟩ := hnext
      refine .inr ⟨.given o value, rest, .given value hacts, List.suffix_cons _ _, fun f => ?_⟩
      conv => lhs; unfold readWords
      simp only [hvalue]
      rfl
    · refine .inl ⟨.usage c (.noValue o), fun f => ?_⟩
      unfold readWords
      simp only [hvalue]
      split
      · exact absurd ⟨_, _, rfl⟩ hnext
      · rfl

/-- A word that is not an option is noted as left over unless a command is looked for and found there. -/
theorem noted_of_plain (c : Option Command) (opts : List Opt) (w : String) (words : List (String × Word))
    (hunknown : kind ≠ .unknown) (hoption : ∀ o attached, kind ≠ .option o attached) :
    Noted c opts (w, kind) words ∨ c = none ∧ ∀ f, readWords c opts ((w, kind) :: words) f =
      .ok { f with command := some (((w, kind) :: words).map Prod.fst) } := by
  have hread (f : Found) : readWords c opts ((w, kind) :: words) f =
      if c = none ∧ ((((w, kind) :: words).dropWhile fun v => v.2 = .separator).head?.map isArgument).getD false then
        .ok { f with command := some (((w, kind) :: words).map Prod.fst) }
      else readWords c opts words (f.leave w) := by
    cases kind with
    | separator | argument => conv => lhs; unfold readWords
    | unknown => exact absurd rfl hunknown
    | option o attached => exact absurd rfl (hoption o attached)
  by_cases hcommand : c = none ∧
      ((((w, kind) :: words).dropWhile fun v => v.2 = .separator).head?.map isArgument).getD false = true
  · exact .inr ⟨hcommand.1, fun f => (hread f).trans (if_pos hcommand)⟩
  · exact .inl ⟨.left w, words, .left _, List.suffix_rfl, fun f => (hread f).trans (if_neg hcommand)⟩

/-- What the first word does: it ends the reading, it is noted, or it is the name of the command and all words from
    there on are left to it. -/
theorem readWords_cons (c : Option Command) (opts : List Opt) (v : String × Word) (words : List (String × Word)) :
    Refused c opts (v :: words) ∨ Noted c opts v words ∨ c = none ∧
      ∀ f, readWords c opts (v :: words) f = .ok { f with command := some ((v :: words).map Prod.fst) } := by
  obtain ⟨w, kind⟩ := v
  cases kind with
  | separator => exact .inr (noted_of_plain c opts w words nofun nofun)
  | argument => exact .inr (noted_of_plain c opts w words nofun nofun)
  | unknown =>
    refine .inr (.inl ⟨.left w, words, .left _, List.suffix_rfl, fun f => ?_⟩)
    conv => lhs; unfold readWords
    rfl
  | option o attached =>
    have hoption : Refused c opts ((w, .option o attached) :: words) ∨ Noted c opts (w, .option o attached) words := by
      cases hvalue : o.valueName with
      | none => exact refused_or_noted_of_noValue hvalue
      | some valueName => exact refused_or_noted_of_valued hvalue
    exact hoption.imp_right .inl

end

/-! ### A whole reading -/

/-- The words end the reading with one error, or all that they note is found in the end, whatever was found before.
    Where a command is looked for, it may be found too. -/
theorem readWords_run (c : Option Command) (opts : List Opt) (words : List (String × Word)) :
    Refused c opts words ∨ ∃ ns : List Note,
      (∀ f, readWords c opts words f = .ok (ns.foldl Note.apply f)) ∨
      c = none ∧ ∃ left, ∀ f, readWords c opts words f = .ok { ns.foldl Note.apply f with command := some left } := by
  induction hlength : words.length using Nat.strongRecOn generalizing words with
  | ind length ih =>
    cases words with
    | nil => exact .inr ⟨[], .inl fun f => by unfold readWords; rfl⟩
    | cons v words =>
      rcases readWords_cons c opts v words with hrefused | ⟨n, rest, -, hrest, hread⟩ | ⟨hnone, hread⟩
      · exact .inl hrefused
      · have hshorter : rest.length < length := by
          rw [← hlength, List.length_cons]
          exact Nat.lt_succ_of_le hrest.length_le
        rcases ih rest.length hshorter rest rfl with ⟨e, he⟩ | ⟨ns, hns | ⟨hnone, left, hleft⟩⟩
        · exact .inl ⟨e, fun f => (hread f).trans (he _)⟩
        · exact .inr ⟨n :: ns, .inl fun f => (hread f).trans (hns _)⟩
        · exact .inr ⟨n :: ns, .inr ⟨hnone, left, fun f => (hread f).trans (hleft _)⟩⟩
      · exact .inr ⟨[], .inr ⟨hnone, _, hread⟩⟩

section
variable {opts : List Opt} {c : Command} {a : Arguments} {f f' r top : Found} {name w : String}
  {args ws rest : List String} {attached : Attached} {o : Opt} {kinds words : List (String × Word)}

theorem extras_foldl (ns : List Note) (f : Found) : f.extras <+: (ns.foldl Note.apply f).extras := by
  induction ns generalizing f with
  | nil => exact List.prefix_rfl
  | cons n ns ih =>
    have hnote : f.extras <+: (n.apply f).extras := by
      cases n with
      | left word => exact List.prefix_append _ _
      | given o value => exact List.prefix_rfl
    exact hnote.trans (ih (n.apply f))

/-- What is left over stays left over. -/
theorem extras_readWords {c : Option Command} (h : readWords c opts words f = .ok r) : f.extras <+: r.extras := by
  rcases readWords_run c opts words with ⟨e, he⟩ | ⟨ns, hns | ⟨-, left, hleft⟩⟩
  · rw [he] at h
    cases h
  · rw [hns] at h
    cases h
    exact extras_foldl ns f
  · rw [hleft] at h
    cases h
    exact extras_foldl ns f

/-! ### The name of the command -/

theorem mem_of_mem_namesOf {n : String × Opt} (h : n ∈ namesOf opts) : n.2 ∈ opts := by
  obtain ⟨o, ho, hn⟩ := List.mem_flatMap.mp h
  obtain ⟨name, -, rfl⟩ := List.mem_map.mp hn
  exact ho

theorem mem_of_lookup (h : (namesOf opts).lookup name = some o) : o ∈ opts := by
  obtain ⟨before, after, hnames, -⟩ := List.lookup_eq_some_iff.mp h
  refine mem_of_mem_namesOf (n := (name, o)) ?_
  rw [hnames]
  exact List.mem_append_right _ List.mem_cons_self

theorem mem_of_mem_candidates (h : (name, .option o attached) ∈ candidates opts w) : o ∈ opts := by
  unfold candidates at h
  split at h
  · split at h
    obtain ⟨n, hn, heq⟩ := List.mem_map.mp h
    cases heq
    exact mem_of_mem_namesOf (List.mem_filter.mp hn).1
  · obtain ⟨n, hn, heq⟩ := List.mem_filterMap.mp h
    split at heq
    · cases heq
      exact mem_of_mem_namesOf hn
    · split at heq
      · cases heq
        exact mem_of_mem_namesOf hn
      · cases heq

theorem mem_of_classify (h : classify opts w = .ok (.option o attached)) : o ∈ opts := by
  unfold classify at h
  split at h
  · split at h
    · next hlookup =>
      cases h
      exact mem_of_lookup hlookup
    · dsimp only at h
      split at h
      · next hexactly =>
        cases h
        obtain ⟨r, -, hr⟩ := Option.bind_eq_some_iff.mp hexactly
        obtain ⟨o', hlookup, heq⟩ := Option.map_eq_some_iff.mp hr
        cases heq
        exact mem_of_lookup hlookup
      · split at h <;> cases h
      · next hcandidates =>
        cases h
        exact mem_of_mem_candidates (hcandidates ▸ List.mem_cons_self)
      · cases h
  · cases h

/-- Neither of the program's own options lets the reading go on, so the first word is the name of the command if nothing
    is left over. -/
theorem command_of_readWords {kind : Word} (hkind : kind = .separator ∨ classify programOptions w = .ok kind)
    (h : readWords none programOptions ((w, kind) :: words) {} = .ok top) (hextras : top.extras = []) :
    top.command = some (((w, kind) :: words).map Prod.fst) := by
  rcases readWords_cons none programOptions (w, kind) words with ⟨e, he⟩ | ⟨n, rest, hn, -, hread⟩ | ⟨-, hread⟩
  · rw [he] at h
    cases h
  · rw [hread] at h
    have hnoted := extras_readWords h
    rw [hextras, List.prefix_nil] at hnoted
    cases hn with
    | left => cases hnoted
    | given value hacts =>
      have hkind := hkind.resolve_left nofun
      rcases List.mem_cons.mp (mem_of_classify hkind) with rfl | hversion
      · exact absurd rfl (hacts rfl).1
      · rw [List.mem_singleton.mp hversion] at hacts
        exact absurd rfl (hacts rfl).2
  · rw [hread] at h
    cases h
    rfl

theorem name_of_ofName? (h : Command.ofName? name = some c) : name = c.name := by
  unfold Command.ofName? at h
  have hfound := List.find?_some h
  exact (of_decide_eq_true hfound).symm

theorem readings_of_read (h : read args = .ok (c, a)) : ∃ top f name ws, readFor none programOptions args = .ok top ∧
    top.extras = [] ∧ top.command = some (name :: ws) ∧ Command.ofName? name = some c ∧
    readFor (some c) c.options ws = .ok f ∧ f.extras = [] ∧ f.arguments = a := by
  unfold read at h
  cases htop : readFor none programOptions args with
  | error e =>
    rw [htop] at h
    cases h
  | ok top =>
    simp only [htop, bind, Except.bind] at h
    split at h
    · cases h
    · cases h
    · next name ws hcommand =>
      split at h
      · cases h
      · next c' hname =>
        split at h
        · cases h
        · next f hread =>
          split at h
          · next hextras =>
            cases h
            obtain ⟨htopExtras, hfExtras⟩ := List.append_eq_nil_iff.mp hextras
            exact ⟨top, f, name, ws, rfl, htopExtras, hcommand, hname, hread, hfExtras, rfl⟩
          · cases h

/-- A command line that is read starts with the name of its command, and nothing behind it is left over. -/
theorem read_cases (h : read args = .ok (c, a)) : ∃ ws kinds f, args = c.name :: ws ∧
    classifyAll programOptions ws = .ok kinds ∧ readFor (some c) c.options ws = .ok f ∧ f.extras = [] ∧
    f.arguments = a := by
  obtain ⟨top, f, name, ws, htop, htopExtras, hcommand, hname, hread, hextras, harguments⟩ := readings_of_read h
  cases name_of_ofName? hname
  obtain ⟨kinds, hkinds, hwords, -⟩ := readFor_eq_ok.mp htop
  cases args with
  | nil =>
    cases hkinds
    cases hwords
    cases hcommand
  | cons w rest =>
    obtain ⟨kind, kinds, rfl, hrest, hkind, hothers⟩ := classifyAll_cons_cases hkinds
    have hnamed := command_of_readWords hkind hwords htopExtras
    rw [hcommand, List.map_cons, hrest] at hnamed
    cases hnamed
    have hseparator : c.name ≠ "--" := by cases c <;> decide
    exact ⟨ws, kinds, f, rfl, hothers hseparator, hread, hextras, harguments⟩

/-! ### A flag behind the name -/

theorem set_flag_comm (hname : name ∈ c.flags) (a : Arguments) (other value : String) :
    (a.set name "").set other value = (a.set other value).set name "" := by
  have hflags : ∀ name ∈ c.flags, name ∈ ["--strict", "--escape", "--check", "--verify"] := by
    cases c <;> decide
  have hmem := hflags name hname
  simp only [List.mem_cons, List.not_mem_nil, or_false] at hmem
  rcases hmem with rfl | rfl | rfl | rfl <;> unfold Arguments.set <;> split <;> rfl

/-- The flag is found on top of the rest. -/
structure Found.Flagged (name : String) (f f' : Found) : Prop where
  arguments : f'.arguments = f.arguments.set name ""
  extras : f'.extras = f.extras
  seen : f.seen ⊆ f'.seen

theorem Found.Flagged.apply (hname : name ∈ c.flags) (h : f.Flagged name f') (n : Note) :
    (n.apply f).Flagged name (n.apply f') := by
  cases n with
  | left word => exact ⟨h.arguments, congrArg (· ++ [word]) h.extras, h.seen⟩
  | given o value =>
    refine ⟨?_, h.extras, List.cons_subset_cons _ h.seen⟩
    exact (congrArg (Arguments.set · o.name value) h.arguments).trans (set_flag_comm hname _ _ _)

theorem Found.Flagged.foldl (hname : name ∈ c.flags) (h : f.Flagged name f') (ns : List Note) :
    (ns.foldl Note.apply f).Flagged name (ns.foldl Note.apply f') := by
  induction ns generalizing f f' with
  | nil => exact h
  | cons n ns ih => exact ih (h.apply hname n)

/-- The words behind the flag note the same as without it. -/
theorem readFor_flag (hname : name ∈ c.flags) (h : readFor (some c) c.options ws = .ok f) :
    ∃ f', readFor (some c) c.options (name :: ws) = .ok f' ∧ f.Flagged name f' := by
  obtain ⟨kinds, hkinds, hread, hrequired⟩ := readFor_eq_ok.mp h
  obtain ⟨o, value, hflag, hset, hgiven⟩ := reads_given (c := c) (g := .flag name) (decide_eq_true hname)
  obtain ⟨kinds', hkinds', hread'⟩ := hgiven hkinds
  rcases readWords_run (some c) c.options kinds with ⟨e, he⟩ | ⟨ns, hns | ⟨⟨⟩, -⟩⟩
  · rw [he] at hread
    cases hread
  · rw [hns] at hread
    cases hread
    have hflagged : Found.Flagged name {} (Found.set {} o value) := ⟨hset _, rfl, List.nil_subset _⟩
    have hall := hflagged.foldl hname ns
    refine ⟨_, readFor_eq_ok.mpr ⟨kinds', hkinds', (hread' _).trans (hns _), fun o ho hneeded => ?_⟩, hall⟩
    exact hall.seen (hrequired o ho hneeded)

/-- A flag that is put behind the name of the command is given on top of all the rest. -/
theorem read_flag (hname : name ∈ c.flags) (h : read (c.name :: ws) = .ok (c, a)) :
    read (c.name :: name :: ws) = .ok (c, a.set name "") := by
  obtain ⟨ws', kinds, f, heq, hkinds, hread, hextras, rfl⟩ := read_cases h
  cases heq
  obtain ⟨f', hread', hflagged⟩ := readFor_flag hname hread
  obtain ⟨-, kind, hkind⟩ := exists_classify_given (c := c) (g := .flag name) (decide_eq_true hname) name
    List.mem_cons_self
  have hplain := (isName_of_mem c name (List.mem_append_right _ hname)).separator
  rw [← hflagged.arguments]
  exact read_of_readFor (classifyAll_cons hplain hkind hkinds) hread' (hflagged.extras.trans hextras)

end
end FormDirectives.Cli
