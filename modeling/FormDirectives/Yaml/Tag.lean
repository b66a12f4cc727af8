/-! Tags, and the tag that a plain scalar gets from its text. -/

namespace FormDirectives.Yaml

inductive Tag
  | null
  | bool
  | int
  | float
  | binary
  | timestamp
  | omap
  | pairs
  | set
  | str
  | seq
  | map
  | merge
  | value
  | other (name : String)
  deriving DecidableEq, Repr

namespace Tag

def ofName : String → Tag
  | "tag:yaml.org,2002:null" => null
  | "tag:yaml.org,2002:bool" => bool
  | "tag:yaml.org,2002:int" => int
  | "tag:yaml.org,2002:float" => float
  | "tag:yaml.org,2002:binary" => binary
  | "tag:yaml.org,2002:timestamp" => timestamp
  | "tag:yaml.org,2002:omap" => omap
  | "tag:yaml.org,2002:pairs" => pairs
  | "tag:yaml.org,2002:set" => set
  | "tag:yaml.org,2002:str" => str
  | "tag:yaml.org,2002:seq" => seq
  | "tag:yaml.org,2002:map" => map
  | "tag:yaml.org,2002:merge" => merge
  | "tag:yaml.org,2002:value" => value
  | name => other name

/-! ### Plain scalars -/

def isNullText (s : String) : Bool := ["", "~", "null", "Null", "NULL"].contains s

def isBoolText (s : String) : Bool :=
  ["yes", "Yes", "YES", "no", "No", "NO", "true", "True", "TRUE", "false", "False", "FALSE", "on", "On", "ON",
    "off", "Off", "OFF"].contains s

def unsigned : List Char → List Char
  | '+' :: rest => rest
  | '-' :: rest => rest
  | cs => cs

def isDigitOr (extra : List Char) (c : Char) : Bool := c.isDigit || extra.contains c

def isHexOr (extra : List Char) (c : Char) : Bool :=
  c.isDigit || ('a' ≤ c && c ≤ 'f') || ('A' ≤ c && c ≤ 'F') || extra.contains c

/-- A part after a colon in base sixty: one digit, or two up to 59. -/
def isSixtieth : List Char → Bool
  | [a] => a.isDigit
  | [a, b] => '0' ≤ a && a ≤ '5' && b.isDigit
  | _ => false

def isIntText (cs : List Char) : Bool :=
  match unsigned cs with
  | '0' :: 'b' :: ds => ds ≠ [] && ds.all fun c => c = '0' || c = '1' || c = '_'
  | '0' :: 'x' :: ds => ds ≠ [] && ds.all (isHexOr ['_'])
  | ['0'] => true
  | '0' :: ds => ds.all fun c => ('0' ≤ c && c ≤ '7') || c = '_'
  | c :: ds =>
    c.isDigit &&
      match ds.splitOn ':' with
      | head :: parts => head.all (isDigitOr ['_']) && parts.all isSixtieth
      | [] => false
  | [] => false

/-- An exponent with its sign, or nothing. -/
def isExponent : List Char → Bool
  | [] => true
  | e :: sign :: ds =>
    (e = 'e' || e = 'E') && (sign = '+' || sign = '-') && ds ≠ [] && ds.all Char.isDigit
  | _ => false

/-- Digits, then an exponent or nothing. -/
def isFraction (cs : List Char) : Bool := isExponent (cs.dropWhile (isDigitOr ['_']))

def isSpecialFloat (cs : List Char) : Bool :=
  [".inf", ".Inf", ".INF"].contains (String.ofList (unsigned cs)) ||
    [".nan", ".NaN", ".NAN"].contains (String.ofList cs)

def isFloatText (cs : List Char) : Bool :=
  isSpecialFloat cs ||
    match unsigned cs with
    | '.' :: d :: rest => d.isDigit && cs.head? = some '.' && isFraction rest
    | d :: rest =>
      d.isDigit &&
        match rest.dropWhile (isDigitOr ['_']) with
        | '.' :: rest => isFraction rest
        | ':' :: more =>
          let whole := more.takeWhile (· ≠ '.')
          let fraction := more.dropWhile (· ≠ '.')
          (whole.splitOn ':').all isSixtieth && fraction.head? = some '.' &&
            (fraction.drop 1).all (isDigitOr ['_'])
        | _ => false
    | [] => false

/-- Between `least` and `most` digits taken off the front, as many as there are. -/
def digits? (least most : Nat) (cs : List Char) : Option (List Char × List Char) :=
  let ds := (cs.take most).takeWhile Char.isDigit
  if least ≤ ds.length then some (ds, cs.drop ds.length) else none

def char? (c : Char) : List Char → Option (List Char)
  | d :: rest => if d = c then some rest else none
  | [] => none

end Tag

/-- The written parts of a date and time. -/
structure MomentText where
  year : List Char
  month : List Char
  day : List Char
  /-- Hour, minute, second and fraction. -/
  time : Option (List Char × List Char × List Char × List Char) := none
  /-- Whether it is west of universal time, with hours and minutes. -/
  offset : Option (Bool × List Char × List Char) := none

namespace MomentText
open Tag

/-- The distance from universal time at the end of a time. -/
def readOffset? (cs : List Char) : Option (Option (Bool × List Char × List Char)) :=
  match cs.dropWhile fun c => c = ' ' || c = '\t' with
  | [] => if cs = [] then some none else none
  | ['Z'] => some (some (false, [], []))
  | sign :: rest =>
    if sign = '+' ∨ sign = '-' then do
      let (hours, rest) ← digits? 1 2 rest
      match rest with
      | [] => some (some (sign = '-', hours, []))
      | ':' :: rest => do
        let (minutes, rest) ← digits? 2 2 rest
        if rest = [] then some (some (sign = '-', hours, minutes)) else none
      | _ => none
    else none

def readTime? (date : MomentText) (cs : List Char) : Option MomentText := do
  let (hour, rest) ← digits? 1 2 cs
  let (minute, rest) ← digits? 2 2 (← char? ':' rest)
  let (second, rest) ← digits? 2 2 (← char? ':' rest)
  let (fraction, rest) := match rest with
    | '.' :: rest => (rest.takeWhile Char.isDigit, rest.dropWhile Char.isDigit)
    | _ => ([], rest)
  return { date with time := some (hour, minute, second, fraction), offset := ← readOffset? rest }

/-- The parts of a date, or of a date and a time with blanks or a `T` between them. -/
def read? (cs : List Char) : Option MomentText := do
  let (year, rest) ← digits? 4 4 cs
  let (month, rest) ← digits? 1 2 (← char? '-' rest)
  let (day, rest) ← digits? 1 2 (← char? '-' rest)
  let date : MomentText := { year, month, day }
  match rest with
  | [] => some date
  | c :: rest =>
    if c = 'T' ∨ c = 't' then readTime? date rest
    else if c = ' ' ∨ c = '\t' then readTime? date (rest.dropWhile fun c => c = ' ' || c = '\t')
    else none

end MomentText

namespace Tag

/-- A plain scalar is a date only with two digits for the month and for the day. -/
def isMomentText (cs : List Char) : Bool :=
  match MomentText.read? cs with
  | some m => m.time.isSome || (m.month.length = 2 && m.day.length = 2)
  | none => false

def ofPlain (s : String) : Tag :=
  let cs := s.toList
  if isBoolText s then bool
  else if isFloatText cs then float
  else if isIntText cs then int
  else if s = "<<" then merge
  else if isNullText s then null
  else if isMomentText cs then timestamp
  else if s = "=" then value
  else str

end Tag
end FormDirectives.Yaml
