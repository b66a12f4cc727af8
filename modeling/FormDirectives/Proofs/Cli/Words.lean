import FormDirectives.Cli.Arguments

/-! Command lines that name their options in full. Behind the name of a command stand its options in any order, each
    flag in a word of its own and each value in the next word or behind an equals sign. Such a line is read into the
    command with what is given; the program's own options, which are looked for first, have no part in it. -/

namespace FormDirectives.Cli

/-- An option as it stands on a command line. -/
inductive Given
  | flag (name : String)
  | value (name value : String)
  /-- A value in the word of its option, behind an equals sign. -/
  | equals (name value : String)
  deriving DecidableEq, Repr

/-- The word is no option, however the options are named. -/
def isPlain (w : String) : Bool :=
  match w.toList with
  | '-' :: _ :: _ => false
  | _ => true

namespace Command

/-- The names of the options that take a value. -/
def valued (c : Command) : List String := (c.options.filter fun o => o.valueName.isSome).map Opt.name

/-- The names of the options without a value that the command goes on from. -/
def flags (c : Command) : List String :=
  (c.options.filter fun o => o.valueName.isNone && o != .showHelp).map Opt.name

/-- The names of the options that must be given. -/
def required (c : Command) : List String := (c.options.filter Opt.required).map Opt.name

end Command

namespace Given

def name : Given → String
  | flag name | value name _ | equals name _ => name

def words : Given → List String
  | flag name => [name]
  | value name v => [name, v]
  | equals name v => [name ++ "=" ++ v]

def set (g : Given) (a : Arguments) : Arguments :=
  match g with
  | flag name => a.set name ""
  | value name v | equals name v => a.set name v

/-- The command has the option, and a value in a word of its own does not look like an option. -/
def fits (c : Command) : Given → Bool
  | flag name => name ∈ c.flags
  | value name v => name ∈ c.valued && isPlain v
  | equals name _ => name ∈ c.valued

end Given

/-! ### Kinds of words -/

section
variable {opts : List Opt} {c : Command} {name value w : String} {o : Opt}

theorem classify_plain (h : isPlain w = true) (opts : List Opt) : classify opts w = .ok .argument := by
  unfold classify
  split
  · next hdash =>
    rw [isPlain, hdash] at h
    cases h
  · rfl

theorem classify_name (hname : isPlain name = false) (h : (namesOf opts).lookup name = some o) :
    classify opts name = .ok (.option o .nothing) := by
  unfold classify
  split
  · simp only [h]
  · next hne =>
    unfold isPlain at hname
    split at hname
    · next hdash => exact absurd hdash (hne _ _)
    · cases hname

theorem toList_equals (name value : String) : (name ++ "=" ++ value).toList = name.toList ++ '=' :: value.toList := by
  simp [String.toList_append]

/-- No name holds an equals sign, so a word with one is no name. -/
theorem lookup_equals (hnames : ∀ n ∈ namesOf opts, '=' ∉ n.1.toList) (name value : String) :
    (namesOf opts).lookup (name ++ "=" ++ value) = none := by
  rw [List.lookup_eq_none_iff]
  intro n hn
  rw [bne_iff_ne]
  intro heq
  refine hnames n hn ?_
  rw [← heq, toList_equals]
  exact List.mem_append_right _ List.mem_cons_self

theorem cutAtEquals_equals (hname : '=' ∉ name.toList) (value : String) :
    cutAtEquals (name ++ "=" ++ value) = some (name, value) := by
  have hword : ∀ c ∈ name.toList, decide (c ≠ '=') = true := fun c hc => by
    rw [decide_eq_true_eq]
    rintro rfl
    exact hname hc
  simp only [cutAtEquals, toList_equals, List.mem_append, List.mem_cons, true_or, or_true, if_true,
    List.takeWhile_append_of_pos hword, List.dropWhile_append_of_pos hword]
  simp

theorem isPlain_equals (hname : isPlain name = false) (value : String) : isPlain (name ++ "=" ++ value) = false := by
  unfold isPlain at hname ⊢
  rw [toList_equals]
  split at hname
  · next hdash =>
    rw [hdash]
    rfl
  · cases hname

theorem classify_equals (hname : isPlain name = false) (hequals : '=' ∉ name.toList)
    (hnames : ∀ n ∈ namesOf opts, '=' ∉ n.1.toList) (h : (namesOf opts).lookup name = some o) (value : String) :
    classify opts (name ++ "=" ++ value) = .ok (.option o (.equals value)) := by
  have hdashed := isPlain_equals hname value
  unfold classify
  split
  · simp only [lookup_equals hnames, cutAtEquals_equals hequals, Option.bind_some, h, Option.map_some]
  · next hne =>
    unfold isPlain at hdashed
    split at hdashed
    · next hdash => exact absurd hdash (hne _ _)
    · cases hdashed

/-- A word with an equals sign that abbreviates no option is no option. -/
theorem exists_classify_equals (hname : name.toList.take 2 = ['-', '-']) (hequals : '=' ∉ name.toList)
    (hnames : ∀ n ∈ namesOf opts, '=' ∉ n.1.toList ∧ n.1 ≠ name ∧ startsWith n.1 name = false) (value : String) :
    ∃ kind, classify opts (name ++ "=" ++ value) = .ok kind := by
  have hlookup : (namesOf opts).lookup name = none := by
    rw [List.lookup_eq_none_iff]
    exact fun n hn => bne_iff_ne.mpr (hnames n hn).2.1.symm
  have hcandidates : candidates opts (name ++ "=" ++ value) = [] := by
    have hfilter : (namesOf opts).filter (fun n => startsWith n.1 name) = [] :=
      List.filter_eq_nil_iff.mpr fun n hn => by simp [(hnames n hn).2.2]
    obtain ⟨rest, hrest⟩ : ∃ rest, name.toList = '-' :: '-' :: rest :=
      ⟨name.toList.drop 2, by rw [← List.take_append_drop 2 name.toList, hname]; rfl⟩
    unfold candidates
    rw [toList_equals, hrest]
    simp only [List.cons_append, cutAtEquals_equals hequals, hfilter, List.map_nil]
  unfold classify
  split
  · simp only [lookup_equals (fun n hn => (hnames n hn).1), cutAtEquals_equals hequals, Option.bind_some, hlookup,
      Option.map_none, hcandidates]
    exact ⟨_, rfl⟩
  · exact ⟨_, rfl⟩

end

/-! ### The options of the commands -/

/-- A name that no command takes for anything else, and the program for none of its own options. -/
structure IsName (name : String) : Prop where
  dashed : name.toList.take 2 = ['-', '-']
  plain : isPlain name = false
  equals : '=' ∉ name.toList
  separator : name ≠ "--"
  acts : name ≠ "--help" ∧ name ≠ "--version"
  foreign : (classify programOptions name).isOk = true
  apart : ∀ n ∈ namesOf programOptions, '=' ∉ n.1.toList ∧ n.1 ≠ name ∧ startsWith n.1 name = false

theorem isName_of_mem (c : Command) : ∀ name ∈ c.valued ++ c.flags, IsName name := by
  have h : ∀ name ∈ c.valued ++ c.flags, name.toList.take 2 = ['-', '-'] ∧ isPlain name = false ∧ '=' ∉ name.toList ∧
      name ≠ "--" ∧ (name ≠ "--help" ∧ name ≠ "--version") ∧ (classify programOptions name).isOk = true ∧
      ∀ n ∈ namesOf programOptions, '=' ∉ n.1.toList ∧ n.1 ≠ name ∧ startsWith n.1 name = false := by
    cases c <;> decide
  intro name hname
  obtain ⟨dashed, plain, equals, separator, acts, foreign, apart⟩ := h name hname
  exact ⟨dashed, plain, equals, separator, acts, foreign, apart⟩

theorem exists_valued (c : Command) : ∀ name ∈ c.valued, ∃ o ∈ c.options,
    (namesOf c.options).lookup name = some o ∧ o.name = name ∧ o.valueName.isSome = true := by
  cases c <;> decide

theorem exists_flag (c : Command) : ∀ name ∈ c.flags, ∃ o ∈ c.options,
    (namesOf c.options).lookup name = some o ∧ o.name = name ∧ o.valueName = none := by
  cases c <;> decide

theorem equals_notMem_names (c : Command) : ∀ n ∈ namesOf c.options, '=' ∉ n.1.toList := by
  cases c <;> decide

theorem equals_ne_separator (name value : String) : name ++ "=" ++ value ≠ "--" := by
  intro heq
  have hmem : '=' ∈ (name ++ "=" ++ value).toList := by
    rw [toList_equals]
    exact List.mem_append_right _ List.mem_cons_self
  rw [heq] at hmem
  exact absurd hmem (by decide)

theorem ne_separator_of_isPlain {w : String} (h : isPlain w = true) : w ≠ "--" := by
  rintro rfl
  exact absurd h (by decide)

/-! ### Lists of words -/

section
variable {opts : List Opt} {c : Command} {w : String} {kind : Word} {ws : List String} {kinds : List (String × Word)}

theorem classifyAll_cons (hw : w ≠ "--") (hkind : classify opts w = .ok kind)
    (hrest : classifyAll opts ws = .ok kinds) : classifyAll opts (w :: ws) = .ok ((w, kind) :: kinds) := by
  rw [classifyAll, if_neg hw, hkind, hrest]
  rfl

theorem exists_classifyAll : ∀ {ws : List String}, (∀ w ∈ ws, w ≠ "--" ∧ ∃ kind, classify opts w = .ok kind) →
    ∃ kinds, classifyAll opts ws = .ok kinds
  | [], _ => ⟨[], rfl⟩
  | w :: ws, h => by
    obtain ⟨hw, kind, hkind⟩ := h w List.mem_cons_self
    obtain ⟨kinds, hkinds⟩ := exists_classifyAll fun v hv => h v (List.mem_cons_of_mem w hv)
    exact ⟨(w, kind) :: kinds, classifyAll_cons hw hkind hkinds⟩

/-- The first word is a separator or of its own kind, and the others keep their order. -/
theorem classifyAll_cons_cases : ∀ {w : String} {ws : List String} {kinds : List (String × Word)},
    classifyAll opts (w :: ws) = .ok kinds → ∃ kind rest, kinds = (w, kind) :: rest ∧ rest.map Prod.fst = ws ∧
      (kind = .separator ∨ classify opts w = .ok kind) ∧ (w ≠ "--" → classifyAll opts ws = .ok rest)
  | w, ws, kinds, h => by
    by_cases hw : w = "--"
    · rw [classifyAll, if_pos hw] at h
      cases h
      exact ⟨.separator, _, rfl, by simp [Function.comp_def], .inl rfl, (absurd hw ·)⟩
    · rw [classifyAll, if_neg hw] at h
      cases hkind : classify opts w with
      | error e =>
        rw [hkind] at h
        cases h
      | ok kind =>
        cases hrest : classifyAll opts ws with
        | error e =>
          rw [hkind, hrest] at h
          cases h
        | ok rest =>
          rw [hkind, hrest] at h
          cases h
          refine ⟨kind, rest, rfl, ?_, .inr rfl, fun _ => rfl⟩
          cases ws with
          | nil =>
            cases hrest
            rfl
          | cons v ws =>
            obtain ⟨kind', rest', rfl, hwords, -⟩ := classifyAll_cons_cases hrest
            rw [List.map_cons, hwords]

theorem map_fst_classifyAll (h : classifyAll opts ws = .ok kinds) : kinds.map Prod.fst = ws := by
  cases ws with
  | nil =>
    cases h
    rfl
  | cons w ws =>
    obtain ⟨kind, rest, rfl, hwords, -⟩ := classifyAll_cons_cases h
    rw [List.map_cons, hwords]

/-- The program's own options are not among the words of a command's option. -/
theorem exists_classify_given {g : Given} (h : g.fits c = true) :
    ∀ w ∈ g.words, w ≠ "--" ∧ ∃ kind, classify programOptions w = .ok kind := by
  have hok {name : String} (hname : IsName name) : ∃ kind, classify programOptions name = .ok kind := by
    have hforeign := hname.foreign
    cases hkind : classify programOptions name with
    | error e =>
      rw [hkind] at hforeign
      cases hforeign
    | ok kind => exact ⟨kind, rfl⟩
  cases g with
  | flag name =>
    have hname := isName_of_mem c name (List.mem_append_right _ (of_decide_eq_true h))
    intro w hw
    rw [List.mem_singleton.mp hw]
    exact ⟨hname.separator, hok hname⟩
  | value name v =>
    obtain ⟨hmem, hplain⟩ := Bool.and_eq_true_iff.mp h
    have hname := isName_of_mem c name (List.mem_append_left _ (of_decide_eq_true hmem))
    intro w hw
    rcases List.mem_cons.mp hw with rfl | hw
    · exact ⟨hname.separator, hok hname⟩
    · rw [List.mem_singleton.mp hw]
      exact ⟨ne_separator_of_isPlain hplain, _, classify_plain hplain _⟩
  | equals name v =>
    have hname := isName_of_mem c name (List.mem_append_left _ (of_decide_eq_true h))
    intro w hw
    rw [List.mem_singleton.mp hw]
    exact ⟨equals_ne_separator name v, exists_classify_equals hname.dashed hname.equals hname.apart v⟩

end

/-! ### Reading -/

/-- What reading the options leaves of what was found before. -/
structure Found.Takes (f : Found) (gs : List Given) (f' : Found) : Prop where
  arguments : f'.arguments = gs.foldl (fun a g => g.set a) f.arguments
  extras : f'.extras = f.extras
  seen : ∀ name, name ∈ f'.seen ↔ name ∈ gs.map Given.name ∨ name ∈ f.seen

theorem Found.Takes.nil (f : Found) : f.Takes [] f := ⟨rfl, rfl, by simp⟩

theorem Found.Takes.cons {f f' : Found} {o : Opt} {g : Given} {gs : List Given} {value : String}
    (harguments : f.arguments.set o.name value = g.set f.arguments) (hname : o.name = g.name)
    (h : (f.set o value).Takes gs f') : f.Takes (g :: gs) f' := by
  refine ⟨?_, h.extras, fun name => ?_⟩
  · rw [h.arguments, List.foldl_cons]
    exact congrArg (gs.foldl fun a g => g.set a) harguments
  · rw [h.seen, Found.set, List.mem_cons, hname, List.map_cons, List.mem_cons, or_left_comm, or_assoc]

section
variable {c : Command} {o : Opt} {f : Found} {w value : String} {kinds : List (String × Word)}

theorem readWords_flag (hvalue : o.valueName = none) (hacts : o.name ≠ "--help" ∧ o.name ≠ "--version") :
    readWords (some c) c.options ((w, .option o .nothing) :: kinds) f =
      readWords (some c) c.options kinds (f.set o "") := by
  conv => lhs; unfold readWords
  simp only [hvalue, act, if_neg hacts.1, if_neg hacts.2]
  rfl

theorem readWords_value (hvalue : o.valueName.isSome = true) :
    readWords (some c) c.options ((w, .option o .nothing) :: (value, .argument) :: kinds) f =
      readWords (some c) c.options kinds (f.set o value) := by
  obtain ⟨v, hv⟩ := Option.isSome_iff_exists.mp hvalue
  conv => lhs; unfold readWords
  simp only [hv]

theorem readWords_equals (hvalue : o.valueName.isSome = true) :
    readWords (some c) c.options ((w, .option o (.equals value)) :: kinds) f =
      readWords (some c) c.options kinds (f.set o value) := by
  obtain ⟨v, hv⟩ := Option.isSome_iff_exists.mp hvalue
  conv => lhs; unfold readWords
  simp only [hv]

end

/-- One option is read into what is found, whatever comes behind it. -/
theorem reads_given {c : Command} {g : Given} (h : g.fits c = true) : ∃ o value, o.name = g.name ∧
    (∀ a : Arguments, a.set o.name value = g.set a) ∧ ∀ {ws : List String} {kinds : List (String × Word)},
      classifyAll c.options ws = .ok kinds → ∃ kinds', classifyAll c.options (g.words ++ ws) = .ok kinds' ∧
        ∀ f, readWords (some c) c.options kinds' f = readWords (some c) c.options kinds (f.set o value) := by
  cases g with
  | flag name =>
    have hmem : name ∈ c.flags := of_decide_eq_true h
    have hname := isName_of_mem c name (List.mem_append_right _ hmem)
    obtain ⟨o, -, hlookup, rfl, hvalue⟩ := exists_flag c name hmem
    exact ⟨o, "", rfl, fun _ => rfl, fun hws => ⟨_, classifyAll_cons hname.separator
      (classify_name hname.plain hlookup) hws, fun f => readWords_flag hvalue hname.acts⟩⟩
  | value name v =>
    obtain ⟨hmem, hplain⟩ := Bool.and_eq_true_iff.mp h
    have hname := isName_of_mem c name (List.mem_append_left _ (of_decide_eq_true hmem))
    obtain ⟨o, -, hlookup, rfl, hvalue⟩ := exists_valued c name (of_decide_eq_true hmem)
    exact ⟨o, v, rfl, fun _ => rfl, fun hws => ⟨_, classifyAll_cons hname.separator
      (classify_name hname.plain hlookup) (classifyAll_cons (ne_separator_of_isPlain hplain) (classify_plain hplain _)
        hws), fun f => readWords_value hvalue⟩⟩
  | equals name v =>
    have hmem : name ∈ c.valued := of_decide_eq_true h
    have hname := isName_of_mem c name (List.mem_append_left _ hmem)
    obtain ⟨o, -, hlookup, rfl, hvalue⟩ := exists_valued c name hmem
    exact ⟨o, v, rfl, fun _ => rfl, fun hws => ⟨_, classifyAll_cons (equals_ne_separator _ v)
      (classify_equals hname.plain hname.equals (equals_notMem_names c) hlookup v) hws, fun f =>
        readWords_equals hvalue⟩⟩

theorem reads_givens {c : Command} : ∀ {gs : List Given}, (∀ g ∈ gs, g.fits c = true) →
    ∃ kinds, classifyAll c.options (gs.flatMap Given.words) = .ok kinds ∧
      ∀ f, ∃ f', readWords (some c) c.options kinds f = .ok f' ∧ f.Takes gs f'
  | [], _ => ⟨[], rfl, fun f => ⟨f, rfl, .nil f⟩⟩
  | g :: gs, h => by
    obtain ⟨kinds, hkinds, hread⟩ := reads_givens fun g' hg => h g' (List.mem_cons_of_mem g hg)
    obtain ⟨o, value, hname, hset, hgiven⟩ := reads_given (h g List.mem_cons_self)
    obtain ⟨kinds', hkinds', hread'⟩ := hgiven hkinds
    refine ⟨kinds', hkinds', fun f => ?_⟩
    obtain ⟨f', hf', htakes⟩ := hread (f.set o value)
    exact ⟨f', (hread' f).trans hf', .cons (hset _) hname htakes⟩

/-- Words are read if they have kinds, the reading comes to an end and nothing that must be given is missing. -/
theorem readFor_eq_ok {c : Option Command} {opts : List Opt} {ws : List String} {f : Found} :
    readFor c opts ws = .ok f ↔ ∃ kinds, classifyAll opts ws = .ok kinds ∧ readWords c opts kinds {} = .ok f ∧
      ∀ o ∈ opts, o.required = true → o.name ∈ f.seen := by
  have hmissing (f : Found) : (opts.filter fun o => o.required && !f.seen.contains o.name) = [] ↔
      ∀ o ∈ opts, o.required = true → o.name ∈ f.seen := by
    simp [List.filter_eq_nil_iff]
  unfold readFor
  cases hkinds : classifyAll opts ws with
  | error e =>
    refine ⟨nofun, ?_⟩
    rintro ⟨kinds, ⟨⟩, -⟩
  | ok kinds =>
    show readWords c opts kinds {} >>= _ = _ ↔ _
    cases hread : readWords c opts kinds {} with
    | error e =>
      refine ⟨nofun, ?_⟩
      rintro ⟨_, ⟨⟩, hread', -⟩
      rw [hread] at hread'
      cases hread'
    | ok f' =>
      constructor
      · intro h
        simp only [bind, Except.bind] at h
        split at h
        · next hnone =>
          cases h
          exact ⟨kinds, rfl, hread, (hmissing _).mp hnone⟩
        · cases h
      · rintro ⟨_, ⟨⟩, hread', hseen⟩
        rw [hread] at hread'
        cases hread'
        exact if_pos ((hmissing _).mpr hseen)

theorem readFor_givens {c : Command} {gs : List Given} (hfits : ∀ g ∈ gs, g.fits c = true)
    (hrequired : ∀ name ∈ c.required, name ∈ gs.map Given.name) :
    ∃ f, readFor (some c) c.options (gs.flatMap Given.words) = .ok f ∧
      f.arguments = gs.foldl (fun a g => g.set a) {} ∧ f.extras = [] := by
  obtain ⟨kinds, hkinds, hread⟩ := reads_givens hfits
  obtain ⟨f, hf, htakes⟩ := hread {}
  refine ⟨f, readFor_eq_ok.mpr ⟨kinds, hkinds, hf, fun o ho hneeded => ?_⟩, htakes.arguments, htakes.extras⟩
  have hgiven := hrequired o.name (List.mem_map_of_mem (List.mem_filter.mpr ⟨ho, hneeded⟩))
  exact (htakes.seen o.name).mpr (.inl hgiven)

/-- Before a command there is only its name, and all words from there on are left to it. -/
theorem readFor_command {ws : List String} {kinds : List (String × Word)} (c : Command)
    (hws : classifyAll programOptions ws = .ok kinds) :
    readFor none programOptions (c.name :: ws) = .ok { command := some (c.name :: ws) } := by
  have hword : c.name ≠ "--" ∧ isPlain c.name = true := by cases c <;> decide
  rw [readFor, classifyAll_cons hword.1 (classify_plain hword.2 _) hws]
  rw [← map_fst_classifyAll hws]
  rfl

theorem read_of_readFor {c : Command} {ws : List String} {kinds : List (String × Word)} {f : Found}
    (hws : classifyAll programOptions ws = .ok kinds) (hread : readFor (some c) c.options ws = .ok f)
    (hextras : f.extras = []) : read (c.name :: ws) = .ok (c, f.arguments) := by
  have hname : Command.ofName? c.name = some c := by cases c <;> rfl
  rw [read, readFor_command c hws]
  simp only [bind, Except.bind, hname, hread, hextras, List.append_nil, if_true]
  rfl

/-- A command line that names its options in full, and all that the command needs, is read as it is meant. -/
theorem read_spelled (c : Command) (gs : List Given) (hfits : ∀ g ∈ gs, g.fits c = true)
    (hrequired : ∀ name ∈ c.required, name ∈ gs.map Given.name) :
    read (c.name :: gs.flatMap Given.words) = .ok (c, gs.foldl (fun a g => g.set a) {}) := by
  have hforeign : ∀ w ∈ gs.flatMap Given.words, w ≠ "--" ∧ ∃ kind, classify programOptions w = .ok kind := by
    intro w hw
    obtain ⟨g, hg, hmem⟩ := List.mem_flatMap.mp hw
    exact exists_classify_given (hfits g hg) w hmem
  obtain ⟨kinds, hkinds⟩ := exists_classifyAll hforeign
  obtain ⟨f, hf, harguments, hextras⟩ := readFor_givens hfits hrequired
  rw [read_of_readFor hkinds hf hextras, harguments]

end FormDirectives.Cli
