/-!
# Double precision patterns

A floating point number as it lies in memory: 64 bits. Patterns keep what numbers lose, such as the
sign of a value that is no number. The magnitude of a finite pattern is `mantissa * 2 ^ exponent`.
-/

namespace GoInspect

/-- The 64 bits of a double precision number. -/
structure Double where
  /-- The sign bit, eleven bits of exponent and 52 bits of fraction, from the top. -/
  bits : UInt64
  deriving DecidableEq, Repr, Inhabited

namespace Double

/-- What a pattern stands for, its sign aside. -/
inductive Magnitude where
  | nan
  | infinite
  | finite (mantissa : Nat) (exponent : Int)
  deriving DecidableEq, Repr

def ofFloat (x : Float) : Double := ⟨x.toBits⟩

def toFloat (d : Double) : Float := Float.ofBits d.bits

/-- The worth of the sign bit. -/
def signUnit : Nat := 0x8000000000000000

/-- The worth of the lowest bit of the exponent, which is also that of the leading bit that numbers
imply. -/
def exponentUnit : Nat := 0x10000000000000

def exponentCount : Nat := 0x800

def isNegative (d : Double) : Bool := signUnit ≤ d.bits.toNat

def exponentField (d : Double) : Nat := d.bits.toNat / exponentUnit % exponentCount

def fractionField (d : Double) : Nat := d.bits.toNat % exponentUnit

/-- The magnitude of a pattern. The least exponent is shared by the numbers whose leading bit is
not implied. -/
def magnitude (d : Double) : Magnitude :=
  if d.exponentField = 2047 then
    if d.fractionField = 0 then .infinite else .nan
  else if d.exponentField = 0 then .finite d.fractionField (-1074)
  else .finite (exponentUnit + d.fractionField) ((d.exponentField : Int) - 1075)

def ofFields (negative : Bool) (exponent fraction : Nat) : Double :=
  ⟨UInt64.ofNat ((if negative then signUnit else 0) + exponent * exponentUnit + fraction)⟩

/-- The worth of the lowest fraction bit of a single precision number. -/
def singleUnit : Nat := 0x20000000

/-- The worth of the fraction bit that quiet patterns without a number have set. -/
def quietUnit : Nat := 0x8000000000000

/-- The double precision pattern of the number whose single precision pattern is given. What is no
number stays so, and loses its signalling mark. -/
def ofSingle (bits : UInt32) : Double :=
  let n := bits.toNat
  let negative : Bool := 0x80000000 ≤ n
  let exponent := n / 0x800000 % 0x100
  let fraction := n % 0x800000
  if exponent = 255 then
    ofFields negative 2047
      (if fraction = 0 then 0 else fraction % 0x400000 * singleUnit + quietUnit)
  else if exponent ≠ 0 then ofFields negative (exponent + 896) (fraction * singleUnit)
  else if fraction = 0 then ofFields negative 0 0
  else
    let k := fraction.log2
    ofFields negative (k + 874) ((fraction - Nat.pow 2 k) * Nat.pow 2 (52 - k))

end Double

end GoInspect
