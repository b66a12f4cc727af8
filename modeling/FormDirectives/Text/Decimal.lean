/-! The decimal text of a binary float: the fewest digits that read back as the same float, and of those the
    nearest. The point is written out from 0.0001 up to sixteen digits before it; other numbers have an
    exponent of at least two digits. -/

namespace FormDirectives.Text

/-- A positive number `digits * 10 ^ exponent`. -/
structure Decimal where
  digits : Nat
  exponent : Int
  deriving DecidableEq, Repr

namespace Decimal

/-- The least significand of a float with a leading one: two to the power of 52. -/
def leastNormal : Nat := 0x10000000000000

/-- A number over a positive denominator. -/
structure Ratio where
  num : Nat
  den : Nat

def Ratio.scaled (n : Nat) (base : Nat) (e : Int) : Ratio :=
  if 0 ≤ e then ⟨n * base.pow e.toNat, 1⟩ else ⟨n, base.pow (-e).toNat⟩

def Ratio.le (a b : Ratio) : Bool := a.num * b.den ≤ b.num * a.den

def Ratio.lt (a b : Ratio) : Bool := a.num * b.den < b.num * a.den

/-- The float `m * 2 ^ q` and the bounds of the numbers that round to it. -/
structure Target where
  value : Ratio
  low : Ratio
  high : Ratio
  closed : Bool

/-- The bounds lie halfway to the neighbours; below a power of two the neighbour is only half as far. -/
def Target.ofBinary (m : Nat) (q : Int) : Target :=
  let gap := if m = leastNormal ∧ -1074 < q then 1 else 2
  { value := .scaled (4 * m) 2 (q - 2)
    low := .scaled (4 * m - gap) 2 (q - 2)
    high := .scaled (4 * m + 2) 2 (q - 2)
    closed := m % 2 = 0 }

def Target.holds (t : Target) (r : Ratio) : Bool :=
  if t.closed then t.low.le r && r.le t.high else t.low.lt r && r.lt t.high

/-- The exponent of the first digit of a ratio, sought among `count` exponents downwards from `top`. -/
def leading (r : Ratio) : (count : Nat) → (top : Int) → Int
  | 0, top => top
  | count + 1, top => if (Ratio.scaled 1 10 top).le r then top else leading r count (top - 1)

/-- The hit nearest to the target on the grid of multiples of `10 ^ e`. -/
def Target.onGrid? (t : Target) (e : Int) : Option Decimal :=
  let unit := Ratio.scaled 1 10 e
  let below := t.value.num * unit.den / (t.value.den * unit.num)
  let point (d : Nat) : Ratio := .scaled d 10 e
  let lowHit := 0 < below && t.holds (point below)
  let highHit := t.holds (point (below + 1))
  let mid := Ratio.scaled (10 * below + 5) 10 (e - 1)
  if lowHit && (!highHit || t.value.lt mid || (!mid.lt t.value && below % 2 = 0)) then some ⟨below, e⟩
  else if highHit then some (if below = 9 then ⟨1, e + 1⟩ else ⟨below + 1, e⟩)
  else none

def shortest (m : Nat) (q : Int) : Decimal :=
  let t := Target.ofBinary m q
  let top := leading t.value 640 310
  ((List.range 17).findSome? fun (k : Nat) => t.onGrid? (top - k)).getD ⟨t.value.num / t.value.den, 0⟩

def digitText (d : Decimal) : List Char := Nat.toDigits 10 d.digits

/-- Pads on the left with zeros. -/
def padded (width n : Nat) : String :=
  let ds := Nat.toDigits 10 n
  String.ofList (List.replicate (width - ds.length) '0' ++ ds)

def positional (d : Decimal) : String :=
  let ds := d.digitText
  if 0 ≤ d.exponent then String.ofList (ds ++ List.replicate d.exponent.toNat '0') ++ ".0"
  else
    let places := (-d.exponent).toNat
    let ds := List.replicate (places + 1 - ds.length) '0' ++ ds
    let whole := ds.length - places
    String.ofList (ds.take whole) ++ "." ++ String.ofList (ds.drop whole)

def scientific (d : Decimal) : String :=
  let ds := d.digitText
  let e := d.exponent + (ds.length - 1 : Nat)
  let fraction := if ds.length = 1 then "" else "." ++ String.ofList (ds.drop 1)
  let sign := if e < 0 then "-" else "+"
  String.ofList (ds.take 1) ++ fraction ++ "e" ++ sign ++ padded 2 e.natAbs

def text (d : Decimal) : String :=
  let first := d.exponent + (d.digitText.length - 1 : Nat)
  if -4 ≤ first ∧ first < 16 then d.positional else d.scientific

end Decimal

/-- The sign, the integer significand and the binary exponent of a finite float. -/
def binaryParts (x : Float) : Bool × Nat × Int :=
  let bits : Nat := x.toBits.toNat
  let fraction : Nat := bits % Decimal.leastNormal
  let e : Nat := bits / Decimal.leastNormal % 0x800
  (0x8000000000000000 ≤ bits,
    if e = 0 then (fraction, -1074) else (fraction + Decimal.leastNormal, (e : Int) - 1075))

def floatText (x : Float) : String :=
  if x.isNaN then "nan"
  else
    let (negative, m, q) := binaryParts x
    let sign := if negative then "-" else ""
    if x.isInf then sign ++ "inf"
    else if m = 0 then sign ++ "0.0"
    else sign ++ (Decimal.shortest m q).text

/-- The integer that a finite float is, if it is one. -/
def floatInt? (x : Float) : Option Int :=
  if x.isNaN || x.isInf then none
  else
    let (negative, m, q) := binaryParts x
    let r := Decimal.Ratio.scaled m 2 q
    if r.num % r.den = 0 then
      let n := (r.num / r.den : Nat)
      some (if negative then -(n : Int) else n)
    else none

end FormDirectives.Text
