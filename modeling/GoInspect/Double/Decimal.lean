import GoInspect.Double
import GoInspect.Text.Number

/-!
# Decimal text of doubles

Two texts of a double: the fewest digits that read back as the same double, and a fixed number of
places. Both are computed in exact whole number arithmetic from `mantissa * 2 ^ exponent`.

For the fewest digits, the reals that round to the double form an interval, whose ends belong to it
when the mantissa is even. Of the decimal grids with one, two, … digits the first that has a point
in the interval gives the digits; if a grid has such a point, one of the two neighbours of the
double itself is one.
-/

namespace GoInspect

namespace Decimal

structure Ratio where
  num : Nat
  /-- The divisor, positive wherever a ratio is built. -/
  den : Nat

namespace Ratio

def scaleTwo (n : Nat) (exponent : Int) : Ratio :=
  if 0 ≤ exponent then ⟨n * Nat.pow 2 exponent.toNat, 1⟩
  else ⟨n, Nat.pow 2 (-exponent).toNat⟩

/-- A whole number times a power of ten. -/
def scaleTen (n : Nat) (exponent : Int) : Ratio :=
  if 0 ≤ exponent then ⟨n * Nat.pow 10 exponent.toNat, 1⟩
  else ⟨n, Nat.pow 10 (-exponent).toNat⟩

def le (a b : Ratio) : Bool := a.num * b.den ≤ b.num * a.den

def lt (a b : Ratio) : Bool := a.num * b.den < b.num * a.den

def floor (a : Ratio) : Nat := a.num / a.den

def unscaleTen (a : Ratio) (exponent : Int) : Ratio :=
  if 0 ≤ exponent then ⟨a.num, a.den * Nat.pow 10 exponent.toNat⟩
  else ⟨a.num * Nat.pow 10 (-exponent).toNat, a.den⟩

def distance (a b : Ratio) : Ratio :=
  ⟨(a.num * b.den - b.num * a.den) + (b.num * a.den - a.num * b.den), a.den * b.den⟩

/-- The exponent of the greatest power of ten not above a positive ratio. -/
def magnitude (a : Ratio) : Int :=
  if a.den ≤ a.num then ((Text.digits 10 (a.num / a.den)).length : Int) - 1
  else -((Text.digits 10 ((a.den + a.num - 1) / a.num - 1)).length : Int)

end Ratio

/-- Decimal digits, read as one number, times a power of ten. -/
structure Digits where
  digits : Nat
  /-- The power of ten of the last digit. -/
  exponent : Int
  deriving DecidableEq, Repr

/-- The reals that round to `mantissa * 2 ^ exponent`. Below a power of two the neighbour is only
half as far. -/
structure Rounding where
  low : Ratio
  /-- The double itself. -/
  value : Ratio
  high : Ratio
  /-- The ends round to the double too. -/
  closed : Bool

def Rounding.of (mantissa : Nat) (exponent : Int) : Rounding where
  low :=
    let below := if mantissa = Double.exponentUnit ∧ -1074 < exponent then 1 else 2
    .scaleTwo (4 * mantissa - below) (exponent - 2)
  value := .scaleTwo (4 * mantissa) (exponent - 2)
  high := .scaleTwo (4 * mantissa + 2) (exponent - 2)
  closed := mantissa % 2 = 0

def Rounding.contains (r : Rounding) (a : Ratio) : Bool :=
  if r.closed then r.low.le a && a.le r.high else r.low.lt a && a.lt r.high

/-- The point of a decimal grid that rounds to the double and is nearest to it, if there is one. -/
def Rounding.onGrid? (r : Rounding) (exponent : Int) : Option Nat :=
  let below := (r.value.unscaleTen exponent).floor
  let above := below + 1
  let ratio := fun n => Ratio.scaleTen n exponent
  match r.contains (ratio below), r.contains (ratio above) with
  | true, true =>
    let down := r.value.distance (ratio below)
    let up := r.value.distance (ratio above)
    if down.lt up then some below
    else if up.lt down then some above
    else if below % 2 = 0 then some below else some above
  | true, false => some below
  | false, true => some above
  | false, false => none

/-- Seventeen digits tell any two doubles apart. -/
def maxDigits : Nat := 17

/-- The first grid, of those with `maxDigits - left` digits or more, with a point in the interval.
-/
def Rounding.search (r : Rounding) (top : Int) : (left : Nat) → Digits
  | 0 => ⟨(r.value.unscaleTen (top - maxDigits + 1)).floor, top - maxDigits + 1⟩
  | left + 1 =>
    let exponent := top - ((maxDigits : Int) - (left + 1))
    match r.onGrid? exponent with
    | some n => ⟨n, exponent⟩
    | none => search r top left

/-- The fewest digits that read back as a positive double. -/
def shortest (mantissa : Nat) (exponent : Int) : Digits :=
  let r := Rounding.of mantissa exponent
  r.search r.value.magnitude maxDigits

/-- A positive number without its trailing zeros, and how many there were. -/
def stripZeros (n : Nat) : Nat × Nat :=
  if _h : n ≠ 0 ∧ n % 10 = 0 then
    let (rest, count) := stripZeros (n / 10)
    (rest, count + 1)
  else (n, 0)
termination_by n
decreasing_by omega

/-- Least power of ten that is written out, by zeros after the point. -/
def leastPlain : Int := -4

/-- Least power of ten that is written as an exponent. -/
def leastScientific : Int := 16

/-- A point after the first digit, if there is another. -/
def pointAfterFirst : Text → Text
  | [] => []
  | [d] => [d]
  | d :: rest => d :: 46 :: rest

/-- An exponent with its sign and at least two digits. -/
def exponentText (e : Int) : Text :=
  let t := Text.decimal e.natAbs
  utf8 (if e < 0 then "e-" else "e+") ++ List.replicate (2 - t.length) 48 ++ t

/-- Digits as text: in plain notation from `leastPlain` up to `leastScientific`, else with an
exponent. Neither ends in a zero behind a point. -/
def Digits.render (d : Digits) : Text :=
  let (n, zeros) := stripZeros d.digits
  let t := Text.decimal n
  let exponent := d.exponent + zeros
  let top := exponent + (t.length : Int) - 1
  if top < leastPlain ∨ leastScientific ≤ top then pointAfterFirst t ++ exponentText top
  else if 0 ≤ exponent then t ++ List.replicate exponent.toNat 48
  else if 0 ≤ top then
    let whole := top.toNat + 1
    t.take whole ++ 46 :: t.drop whole
  else utf8 "0." ++ List.replicate ((-top).toNat - 1) 48 ++ t

/-- A ratio rounded to a whole number, a half to the even neighbour. -/
def Ratio.round (a : Ratio) : Nat :=
  let n := a.num / a.den
  let twice := 2 * (a.num % a.den)
  if twice < a.den ∨ (twice = a.den ∧ n % 2 = 0) then n else n + 1

def twoPlaces (a : Ratio) : Text :=
  let n := Ratio.round ⟨a.num * 100, a.den⟩
  let cents := n % 100
  Text.decimal (n / 100) ++ 46 :: (if cents < 10 then utf8 "0" else []) ++ Text.decimal cents

end Decimal

namespace Double

def signText (d : Double) : Text := if d.isNegative then utf8 "-" else []

/-- The text of a double given the text of its magnitude, if that is finite. -/
def renderBy (finite : Nat → Int → Text) (d : Double) : Text :=
  d.signText ++
    match d.magnitude with
    | .nan => utf8 "nan"
    | .infinite => utf8 "inf"
    | .finite mantissa exponent => finite mantissa exponent

/-- The shortest text that reads back as the double. -/
def render (d : Double) : Text :=
  d.renderBy fun mantissa exponent =>
    if mantissa = 0 then utf8 "0" else (Decimal.shortest mantissa exponent).render

def renderTwoPlaces (d : Double) : Text :=
  d.renderBy fun mantissa exponent => Decimal.twoPlaces (.scaleTwo mantissa exponent)

end Double

end GoInspect
