import FormDirectives.Data
import FormDirectives.Text.Blank
import FormDirectives.Text.Digit
import FormDirectives.Yaml.Error
import FormDirectives.Yaml.Tag

/-! The values of scalars: numbers in several bases, truth values, dates and binary data. -/

namespace FormDirectives.Yaml.ScalarValue
open Text

/-! ### Truth values -/

def ofBool (text : String) : Except Error Data :=
  let word := String.ofList (text.toList.map Char.toLower)
  if ["yes", "true", "on"].contains word then .ok (.bool true)
  else if ["no", "false", "off"].contains word then .ok (.bool false)
  else .error (.notBool word)

/-! ### Integers -/

def digitValue (c : Char) : Nat :=
  if c.isDigit then c.toNat - '0'.toNat
  else if 'a' ≤ c ∧ c ≤ 'z' then c.toNat - 'a'.toNat + 10
  else if 'A' ≤ c ∧ c ≤ 'Z' then c.toNat - 'A'.toNat + 10
  else 36

def natOfDigits? (base : Nat) (ds : List Char) : Option Nat :=
  if ds ≠ [] ∧ ds.all fun c => digitValue c < base then some (ds.foldl (fun n d => n * base + digitValue d) 0)
  else none

/-- The letter that may mark digits of a base after a zero. -/
def baseLetter (base : Nat) (c : Char) : Bool :=
  (base = 2 && (c = 'b' || c = 'B')) || (base = 8 && (c = 'o' || c = 'O')) ||
    (base = 16 && (c = 'x' || c = 'X'))

def afterBase (base : Nat) : List Char → List Char
  | '0' :: c :: rest => if baseLetter base c then rest else '0' :: c :: rest
  | cs => cs

/-- Digits of a base that is no power of two are read one after the other, and only so many of them. -/
def tooMany (base : Nat) (ds : List Char) : Bool := base = 10 && maxDigits < ds.length

/-- An integer in digits of any script, with a sign or none and blanks around it. -/
def readInt (base : Nat) (cs : List Char) : Except Error Int :=
  let (negative, ds) := match strip (cs.map asciiDigit) with
    | '-' :: ds => (true, ds)
    | '+' :: ds => (false, ds)
    | ds => (false, ds)
  if tooMany base ds then .error (.notInt base (String.ofList cs))
  else match natOfDigits? base (afterBase base ds) with
  | some n => .ok (if negative then -n else n)
  | none => .error (.notInt base (String.ofList cs))

def readInts (base : Nat) : List (List Char) → Except Error (List Int)
  | [] => .ok []
  | part :: rest => do
    let n ← readInt base part
    return n :: (← readInts base rest)

/-- The number of parts in base sixty, the last one counting ones. -/
def sixtieths (parts : List Int) : Int := parts.foldl (fun n p => n * 60 + p) 0

/-- The sign of a number and what follows it. -/
def signed : List Char → Bool × List Char
  | '-' :: rest => (true, rest)
  | '+' :: rest => (false, rest)
  | cs => (false, cs)

def withoutUnderscores (text : String) : List Char := text.toList.filter (· ≠ '_')

def ofInt (text : String) : Except Error Data := do
  let cs := withoutUnderscores text
  if cs = [] then .error .emptyNumber
  let (negative, cs) := signed cs
  let n ← match cs with
    | [] => .error .emptyNumber
    | ['0'] => pure 0
    | '0' :: 'b' :: ds => readInt 2 ds
    | '0' :: 'x' :: ds => readInt 16 ds
    | '0' :: _ => readInt 8 cs
    | _ => if cs.contains ':' then sixtieths <$> readInts 10 (cs.splitOn ':') else readInt 10 cs
  return .int (if negative then -n else n)

/-! ### Floats -/

/-- The float nearest to `digits * 10 ^ exponent`. -/
def scaledFloat (digits : Nat) (exponent : Int) : Float :=
  let size : Int := (Nat.toDigits 10 digits).length
  if digits = 0 ∨ exponent + size < -400 then 0.0
  else if 400 < exponent then 1.0 / 0.0
  else Float.ofScientific digits (decide (exponent < 0)) exponent.natAbs

def exponent? : List Char → Option Int
  | [] => some 0
  | e :: rest =>
    if e = 'e' then
      let (negative, ds) := signed rest
      (natOfDigits? 10 ds).map fun n => if negative then -(n : Int) else n
    else none

/-- A positive float without blanks around it, in lower case. -/
def unsignedFloat? (cs : List Char) : Option Float :=
  if cs = "inf".toList ∨ cs = "infinity".toList then some (1.0 / 0.0)
  else if cs = "nan".toList then some (0.0 / 0.0)
  else
    let whole := cs.takeWhile Char.isDigit
    let rest := cs.dropWhile Char.isDigit
    let (fraction, rest) := match rest with
      | '.' :: rest => (rest.takeWhile Char.isDigit, rest.dropWhile Char.isDigit)
      | _ => ([], rest)
    match natOfDigits? 10 (whole ++ fraction), exponent? rest with
    | some n, some e => some (scaledFloat n (e - fraction.length))
    | _, _ => none

def readFloat (cs : List Char) : Except Error Float :=
  let (negative, ds) := signed (strip (cs.map asciiDigit))
  match unsignedFloat? ds with
  | some x => .ok (if negative then -x else x)
  | none => .error (.notFloat (String.ofList cs))

def readFloats : List (List Char) → Except Error (List Float)
  | [] => .ok []
  | part :: rest => do
    let x ← readFloat part
    return x :: (← readFloats rest)

/-- The sum of parts in base sixty, from the ones on. -/
def floatSixtieths (parts : List Float) : Float :=
  (parts.reverse.foldl (fun (sum, base) p => (sum + p * base, base * 60.0)) (0.0, 1.0)).1

def ofFloat (text : String) : Except Error Data := do
  let cs := (withoutUnderscores text).map Char.toLower
  if cs = [] then .error .emptyNumber
  let (negative, cs) := signed cs
  let x ←
    if cs = ".inf".toList then pure (1.0 / 0.0)
    else if cs = ".nan".toList then pure (0.0 / 0.0)
    else if cs.contains ':' then floatSixtieths <$> readFloats (cs.splitOn ':')
    else readFloat cs
  return .float (if negative then -x else x)

/-! ### Dates and times -/

def number (ds : List Char) : Nat := (natOfDigits? 10 ds).getD 0

def isLeap (year : Nat) : Bool := year % 4 = 0 && (year % 100 ≠ 0 || year % 400 = 0)

def daysIn (year month : Nat) : Nat :=
  if month = 2 then if isLeap year then 29 else 28
  else if [4, 6, 9, 11].contains month then 30
  else 31

def checkDate (year month day : Nat) : Except Error Unit :=
  if year = 0 then .error (.momentRange (.year year))
  else if month = 0 ∨ 12 < month then .error (.momentRange .month)
  else if day = 0 ∨ daysIn year month < day then .error (.momentRange .day)
  else .ok ()

def checkTime (hour minute second : Nat) : Except Error Unit :=
  if 23 < hour then .error (.momentRange .hour)
  else if 59 < minute then .error (.momentRange .minute)
  else if 59 < second then .error (.momentRange .second)
  else .ok ()

/-- The microseconds of a fraction of a second; further digits are dropped. -/
def micros (fraction : List Char) : Nat :=
  let ds := fraction.take 6
  number (ds ++ List.replicate (6 - ds.length) '0')

/-- A distance from universal time in minutes, less than a day. -/
def checkOffset : Option (Bool × List Char × List Char) → Except Error (Option Int)
  | none => .ok none
  | some (west, hours, minutes) =>
    let n : Int := number hours * 60 + number minutes
    let n := if west then -n else n
    if n.natAbs < 1440 then .ok (some n) else .error (.offsetRange n)

def ofMoment (text : String) : Except Error Data :=
  match MomentText.read? text.toList with
  | none => .error .notMoment
  | some m => do
    let year := number m.year
    let month := number m.month
    let day := number m.day
    match m.time with
    | none =>
      checkDate year month day
      return .moment { year, month, day }
    | some (hour, minute, second, fraction) =>
      let offset ← checkOffset m.offset
      checkDate year month day
      checkTime (number hour) (number minute) (number second)
      return .moment {
        year, month, day, offset
        time := some (number hour, number minute, number second, micros fraction) }

/-! ### Binary data -/

def sextet? (c : Char) : Option Nat :=
  if 'A' ≤ c ∧ c ≤ 'Z' then some (c.toNat - 'A'.toNat)
  else if 'a' ≤ c ∧ c ≤ 'z' then some (c.toNat - 'a'.toNat + 26)
  else if c.isDigit then some (c.toNat - '0'.toNat + 52)
  else if c = '+' then some 62
  else if c = '/' then some 63
  else none

/-- The bytes of base-64 text. Other characters are passed over; `held` is what the last `count` sextets of a
    group of four leave over, and enough padding after them ends the text. -/
def base64? (count held pads : Nat) : List Char → Option (List UInt8)
  | [] => if count = 0 then some [] else none
  | c :: rest =>
    if c = '=' then
      if 2 ≤ count ∧ 4 ≤ count + pads + 1 then some []
      else base64? count held (if 2 ≤ count then pads + 1 else pads) rest
    else
      match sextet? c with
      | none => base64? count held pads rest
      | some v =>
        if count = 0 then base64? 1 v 0 rest
        else if count = 1 then (base64? 2 (v % 16) 0 rest).map (UInt8.ofNat (held * 4 + v / 16) :: ·)
        else if count = 2 then (base64? 3 (v % 4) 0 rest).map (UInt8.ofNat (held * 16 + v / 4) :: ·)
        else (base64? 0 0 0 rest).map (UInt8.ofNat (held * 64 + v) :: ·)

def ofBinary (text : String) : Except Error Data :=
  if text.toList.all fun c => c.toNat < 0x80 then
    match base64? 0 0 0 text.toList with
    | some bs => .ok (.bytes ⟨bs.toArray⟩)
    | none => .error .value
  else .error .value

/-! ### Scalars -/

/-- The value of a scalar under a tag for scalars; any other tag has none. -/
def ofText (tag : Tag) (text : String) : Except Error Data :=
  match tag with
  | .null => .ok .null
  | .bool => ofBool text
  | .int => ofInt text
  | .float => ofFloat text
  | .binary => ofBinary text
  | .timestamp => ofMoment text
  | .str => .ok (.text text)
  | _ => .error .value

end FormDirectives.Yaml.ScalarValue
