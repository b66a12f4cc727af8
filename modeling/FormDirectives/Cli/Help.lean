import FormDirectives.Cli.Option

/-! Usage lines and help pages, laid out for a terminal of eighty columns: help texts stand in a column of their
    own, at most 24 columns in, and lines are filled with as many words as fit. -/

namespace FormDirectives.Cli

def lineWidth : Nat := 78

def maxHelpColumn : Nat := 24

def spaces (n : Nat) : String := String.ofList (List.replicate n ' ')

/-- Lines of words with a space between them. No line is wider than `width` unless it is one word; the first
    line has `taken` columns already, and the further ones start at column `indent`. -/
def fill (width indent : Nat) (taken : Nat) (line : List String) : List String → List (List String)
  | [] => [line]
  | w :: ws =>
    let gap := if line = [] then 0 else 1
    if line ≠ [] ∧ width < taken + gap + w.length then line :: fill width indent (indent + w.length) [w] ws
    else fill width indent (taken + gap + w.length) (line ++ [w]) ws

def words (text : String) : List String := (text.toList.splitOn ' ').map String.ofList

def wrap (width : Nat) (text : String) : List String :=
  (fill width 0 0 [] (words text)).map fun line => " ".intercalate line

/-! ### Usage -/

def Opt.usagePart (o : Opt) : String :=
  let name := o.short.getD o.name
  let part := match o.valueName with
    | some v => name ++ " " ++ v
    | none => name
  if o.required then part else "[" ++ part ++ "]"

/-- The names of the commands, as one of them is chosen. -/
def commandChoice : String := "\x7b" ++ ",".intercalate (Command.all.map Command.name) ++ "\x7d"

def usageParts : Option Command → List String
  | some c => c.options.map Opt.usagePart
  | none => programOptions.map Opt.usagePart ++ [commandChoice, "..."]

def fullName : Option Command → String
  | some c => programName ++ " " ++ c.name
  | none => programName

/-- The usage line; what does not fit goes on below its first option. -/
def usage (c : Option Command) : String :=
  let start := "usage: " ++ fullName c
  let indent := start.length + 1
  let lines := fill lineWidth indent start.length [start] (usageParts c)
  ("\n" ++ spaces indent).intercalate (lines.map fun line => " ".intercalate line) ++ "\n"

/-! ### Help -/

/-- A line of a help page: how far it is indented, what it is about, and what it says. -/
structure HelpRow where
  indent : Nat
  subject : String
  help : String

def Opt.helpRow (o : Opt) : HelpRow where
  indent := 2
  subject := ", ".intercalate (o.names.map fun n =>
    match o.valueName with
    | some v => n ++ " " ++ v
    | none => n)
  help := o.help

def commandRows : List HelpRow :=
  { indent := 2, subject := commandChoice, help := "" } ::
    Command.all.map fun c => { indent := 4, subject := c.name, help := c.summary }

def HelpRow.text (column : Nat) (r : HelpRow) : String :=
  let head := spaces r.indent ++ r.subject
  if r.help = "" then head ++ "\n"
  else
    let lines := wrap (lineWidth - column) r.help
    let body := ("\n" ++ spaces column).intercalate lines ++ "\n"
    if head.length + 2 ≤ column then head ++ spaces (column - head.length) ++ body
    else head ++ "\n" ++ spaces column ++ body

def helpColumn (rows : List HelpRow) : Nat :=
  min maxHelpColumn ((rows.map fun r => r.indent + r.subject.length + 2).foldl max 0)

def helpSection (title : String) (column : Nat) (rows : List HelpRow) : String :=
  "\n" ++ title ++ ":\n" ++ String.join (rows.map (HelpRow.text column))

def help (c : Option Command) : String :=
  let description := match c with
    | some c => c.description
    | none => programDescription
  let options := (match c with
    | some c => c.options
    | none => programOptions).map Opt.helpRow
  let commands := match c with
    | some _ => []
    | none => commandRows
  let column := helpColumn (options ++ commands)
  usage c ++ "\n" ++ "\n".intercalate (wrap lineWidth description) ++ "\n" ++
    (if commands.isEmpty then "" else helpSection "positional arguments" column commands) ++
    helpSection "options" column options

end FormDirectives.Cli
