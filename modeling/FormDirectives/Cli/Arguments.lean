import FormDirectives.Cli.Option
import FormDirectives.Text.Digit
import FormDirectives.Text.Quoted

/-! Reading the words of a command line. A word that starts with a dash is an option if it names one, in full or
    by a beginning that no other option shares; its value is the next word or what follows an equals sign. What
    is left over is reported after everything else was read. -/

namespace FormDirectives.Cli

structure Arguments where
  input : Option String := none
  output : Option String := none
  config : Option String := none
  source : Option String := none
  strict : Bool := false
  escape : Bool := false
  check : Bool := false
  verify : Bool := false
  deriving DecidableEq, Repr

/-- Sets what an option stands for. -/
def Arguments.set (a : Arguments) (name value : String) : Arguments :=
  match name with
  | "--in" => { a with input := some value }
  | "--out" => { a with output := some value }
  | "--config" => { a with config := some value }
  | "--source" => { a with source := some value }
  | "--strict" => { a with strict := true }
  | "--escape" => { a with escape := true }
  | "--check" => { a with check := true }
  | "--verify" => { a with verify := true }
  | _ => a

inductive UsageError
  | ambiguous (word : String) (names : List String)
  | unusedValue (option : Opt) (value : String)
  | noValue (option : Opt)
  | noCommand (word : String)
  | missing (options : List Opt)
  | unrecognized (words : List String)
  deriving DecidableEq, Repr

def UsageError.message : UsageError → String
  | ambiguous word names => s!"ambiguous option: {word} could match " ++ ", ".intercalate names
  | unusedValue option value => s!"argument {option.title}: ignored explicit argument {Text.quoted value}"
  | noValue option => s!"argument {option.title}: expected one argument"
  | noCommand word =>
    let choices := ", ".intercalate (Command.all.map fun c => Text.quoted c.name)
    s!"argument command: invalid choice: {Text.quoted word} (choose from {choices})"
  | missing options =>
    "the following arguments are required: " ++ ", ".intercalate (options.map Opt.title)
  | unrecognized words => "unrecognized arguments: " ++ " ".intercalate words

/-- Why a command line leads to no command. -/
inductive Stop
  | help (c : Option Command)
  | version
  | usage (c : Option Command) (e : UsageError)
  deriving DecidableEq, Repr

/-! ### Kinds of words -/

/-- A value given in the same word, after an equals sign or directly behind a short name. -/
inductive Attached
  | nothing
  | equals (value : String)
  | direct (value : String)
  deriving DecidableEq, Repr

inductive Word
  /-- Two dashes: no option comes after them. -/
  | separator
  | argument
  | option (o : Opt) (attached : Attached)
  | unknown
  deriving DecidableEq, Repr

/-- The names of the options, each with its option. -/
def namesOf (opts : List Opt) : List (String × Opt) := opts.flatMap fun o => o.names.map fun n => (n, o)

/-- The part before the first equals sign and the part after it. -/
def cutAtEquals (word : String) : Option (String × String) :=
  let cs := word.toList
  if '=' ∈ cs then
    some (String.ofList (cs.takeWhile (· ≠ '=')), String.ofList ((cs.dropWhile (· ≠ '=')).drop 1))
  else none

def startsWith (word : String) (start : String) : Bool := decide (start.toList <+: word.toList)

/-- The options that a word may abbreviate. -/
def candidates (opts : List Opt) (word : String) : List (String × Word) :=
  match word.toList with
  | '-' :: '-' :: _ =>
    let (start, attached) := match cutAtEquals word with
      | some (start, value) => (start, Attached.equals value)
      | none => (word, .nothing)
    ((namesOf opts).filter fun n => startsWith n.1 start).map fun n => (n.1, .option n.2 attached)
  | cs =>
    (namesOf opts).filterMap fun n =>
      if n.1.toList = cs.take 2 then some (n.1, .option n.2 (.direct (String.ofList (cs.drop 2))))
      else if startsWith n.1 word then some (n.1, .option n.2 .nothing)
      else none

/-- A negative number: a dash, digits, and a point with more digits after it; one line feed may follow. -/
def isNumber (word : String) : Bool :=
  match word.toList with
  | '-' :: cs =>
    let cs := if cs.getLast? = some '\n' then cs.dropLast else cs
    let fraction := cs.dropWhile Text.isDecimal
    (cs ≠ [] && fraction = []) ||
      match fraction with
      | '.' :: ds => ds ≠ [] && ds.all Text.isDecimal
      | _ => false
  | _ => false

def classify (opts : List Opt) (word : String) : Except UsageError Word :=
  match word.toList with
  | '-' :: _ :: _ =>
    match (namesOf opts).lookup word with
    | some o => .ok (.option o .nothing)
    | none =>
      let exactly := (cutAtEquals word).bind fun r => ((namesOf opts).lookup r.1).map fun o =>
        Word.option o (.equals r.2)
      match exactly, candidates opts word with
      | some w, _ => .ok w
      | none, [] => .ok (if isNumber word ∨ ' ' ∈ word.toList then .argument else .unknown)
      | none, [(_, w)] => .ok w
      | none, ws => .error (.ambiguous word (ws.map Prod.fst))
  | _ => .ok .argument

/-- The kinds of all words; behind the first separator there are only arguments. -/
def classifyAll (opts : List Opt) : List String → Except UsageError (List (String × Word))
  | [] => .ok []
  | w :: ws =>
    if w = "--" then .ok ((w, .separator) :: ws.map fun v => (v, .argument))
    else do
      let kind ← classify opts w
      return (w, kind) :: (← classifyAll opts ws)

/-! ### Reading -/

structure Found where
  arguments : Arguments := {}
  seen : List String := []
  extras : List String := []
  /-- The name of a command and the words after it. -/
  command : Option (List String) := none

def Found.set (f : Found) (o : Opt) (value : String) : Found :=
  { f with arguments := f.arguments.set o.name value, seen := o.name :: f.seen }

def Found.leave (f : Found) (word : String) : Found := { f with extras := f.extras ++ [word] }

/-- Letters behind a short option without a value are short options too, as long as each is one. -/
def checkCluster (o : Opt) (opts : List Opt) (attached : Attached) : (fuel : Nat) → Except UsageError Unit
  | 0 => .ok ()
  | fuel + 1 =>
    match attached with
    | .nothing => .ok ()
    | .equals value => .error (.unusedValue o value)
    | .direct value =>
      match value.toList with
      | [] => .error (.unusedValue o value)
      | '-' :: _ => .error (.unusedValue o value)
      | c :: cs =>
        match (namesOf opts).lookup (String.ofList ['-', c]) with
        | none => .ok ()
        | some o =>
          match cs with
          | [] => .ok ()
          | '=' :: value => checkCluster o opts (.equals (String.ofList value)) fuel
          | cs => checkCluster o opts (.direct (String.ofList cs)) fuel

/-- What an option without a value does. -/
def act (c : Option Command) (o : Opt) (f : Found) : Except Stop Found :=
  if o.name = "--help" then .error (.help c)
  else if o.name = "--version" then .error .version
  else .ok (f.set o "")

def isArgument (w : String × Word) : Bool := w.2 = .argument

def readWords (c : Option Command) (opts : List Opt) : List (String × Word) → Found → Except Stop Found
  | [], f => .ok f
  | (w, .unknown) :: rest, f => readWords c opts rest (f.leave w)
  | (w, .option o attached) :: rest, f =>
    match o.valueName, attached with
    | some _, .equals value | some _, .direct value => readWords c opts rest (f.set o value)
    | some _, .nothing =>
      match rest with
      | (value, .argument) :: rest => readWords c opts rest (f.set o value)
      | _ => .error (.usage c (.noValue o))
    | none, .nothing => act c o f >>= readWords c opts rest
    | none, .equals value => .error (.usage c (.unusedValue o value))
    | none, .direct _ =>
      match checkCluster o opts attached (w.length + 1) with
      | .error e => .error (.usage c e)
      | .ok () => act c o f >>= readWords c opts rest
  | (w, kind) :: rest, f =>
    let words := (w, kind) :: rest
    if c = none ∧ ((words.dropWhile fun v => v.2 = .separator).head?.map isArgument).getD false then
      .ok { f with command := some (words.map Prod.fst) }
    else readWords c opts rest (f.leave w)

def readFor (c : Option Command) (opts : List Opt) (args : List String) : Except Stop Found := do
  let words ← (classifyAll opts args).mapError (.usage c)
  let f ← readWords c opts words {}
  let missing := opts.filter fun o => o.required && !f.seen.contains o.name
  if missing = [] then return f else .error (.usage c (.missing missing))

/-- The command of a command line with what it is given. -/
def read (args : List String) : Except Stop (Command × Arguments) := do
  let top ← readFor none programOptions args
  match top.command with
  | none => .error (if top.extras = [] then .help none else .usage none (.unrecognized top.extras))
  | some [] => .error (.help none)
  | some (name :: rest) =>
    match Command.ofName? name with
    | none => .error (.usage none (.noCommand name))
    | some c =>
      let f ← readFor (some c) c.options rest
      if top.extras ++ f.extras = [] then return (c, f.arguments)
      else .error (.usage none (.unrecognized (top.extras ++ f.extras)))

end FormDirectives.Cli
