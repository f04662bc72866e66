import GoInspect.Enumeration

/-!
# Confidence

How plausible it is that memory holds an object of a type, as a number from 0 to 1. Lengths lose
confidence as they outgrow what is usual, and hash seeds lose it where they look unlike random bits.
-/

namespace GoInspect

/-- The least confidence that a guess needs to be shown. -/
inductive ConfidenceThreshold where
  | low | medium | high
  deriving DecidableEq, Repr

instance : Enumeration ConfidenceThreshold where
  all := [.low, .medium, .high]
  name
    | .low => utf8 "Low"
    | .medium => utf8 "Medium"
    | .high => utf8 "High"

/-- The steps that a confidence falls into. `certain` only names the value 1; nothing falls into it.
-/
inductive ConfidenceLevel where
  | junk | low | medium | high | certain
  deriving DecidableEq, Repr

instance : Enumeration ConfidenceLevel where
  all := [.junk, .low, .medium, .high, .certain]
  name
    | .junk => utf8 "Junk"
    | .low => utf8 "Low"
    | .medium => utf8 "Medium"
    | .high => utf8 "High"
    | .certain => utf8 "Certain"

def ConfidenceLevel.value : ConfidenceLevel → Float
  | .junk => 0.0
  | .low => 0.2
  | .medium => 0.4
  | .high => 0.7
  | .certain => 1.0

def ConfidenceThreshold.value : ConfidenceThreshold → Float
  | .low => 0.2
  | .medium => 0.4
  | .high => 0.7

namespace Confidence

/-- The level of a confidence. What is no number counts as high, since it is below nothing. -/
def level (c : Float) : ConfidenceLevel :=
  if c < ConfidenceLevel.low.value then .junk
  else if c < ConfidenceLevel.medium.value then .low
  else if c < ConfidenceLevel.high.value then .medium
  else .high

/-- A confidence reaches a threshold. -/
def meets (c : Float) (threshold : ConfidenceThreshold) : Bool := c ≥ threshold.value

/-- The smaller of two numbers, the first where they do not compare. -/
def least (a b : Float) : Float := if b < a then b else a

/-- The confidence in a length: full up to `threshold`, then decaying, so that `softness` times the
threshold gives a half. -/
def ofLength (length : UInt64) (threshold softness : Float) : Float :=
  let scale := threshold * softness
  let denominator := length.toFloat + scale - threshold
  if denominator ≤ 0.0 then 1.0 else least 1.0 (scale / denominator)

/-- Bit `i` of a number. -/
def bit (n : UInt64) (i : Nat) : Bool := n.toNat.testBit i

/-- How often neighbouring bits differ among the lowest `n + 1` bits. -/
def flips (seed : UInt64) (n : Nat) : Nat :=
  (List.range n).countP fun i => bit seed i != bit seed (i + 1)

/-- The binomial coefficients of `n` from `x` on, `count` of them, added to `sum`; `binomial` is the
coefficient before `x`. -/
def binomialSum (n : Nat) : (count x : Nat) → (binomial sum : Float) → Float
  | 0, _, _, sum => sum
  | count + 1, x, binomial, sum =>
    let next := binomial * Float.ofNat (n - x + 1) / Float.ofNat x
    binomialSum n count (x + 1) next (sum + next)

/-- A number moved into the interval from 0 to 1. -/
def clamp (x : Float) : Float := if x < 0.0 then 0.0 else if 1.0 < x then 1.0 else x

/-- How likely random bits are to change from neighbour to neighbour at most as rarely, or as often,
as those of `seed`. The distribution is symmetric, so the tail that the seed lies in is measured. -/
def ofSeed (seed : UInt64) (bits : Nat) : Float :=
  if bits < 2 then 1.0
  else
    let n := bits - 1
    let changes := flips seed n
    let tail := if n / 2 < changes then n - changes else changes
    clamp (binomialSum n tail 1 1.0 1.0 * (1.0 / Float.ofNat (Nat.pow 2 (n - 1))))

/-- Exponent below 1 that punishes unusual seeds less. -/
def seedSoftness : Float := 0.3

def ofMapSeed (seed : UInt64) (bits : Nat) : Float := (ofSeed seed bits).pow seedSoftness

end Confidence

end GoInspect
