import GoInspect.Text.Utf8

/-!
# UTF-16

Lenient decoding. A byte order mark chooses the order and is dropped, little endian without one.
A surrogate without its partner and an odd last byte become replacement characters.
-/

namespace GoInspect

namespace Utf16

/-- The units that pairs of bytes write, and whether a byte is left over. -/
def units (bigEndian : Bool) : Text → List UInt16 × Bool
  | [] => ([], false)
  | [_] => ([], true)
  | a :: b :: rest =>
    let unit := if bigEndian then (a.toUInt16 <<< 8) ||| b.toUInt16
      else a.toUInt16 ||| (b.toUInt16 <<< 8)
    let (others, odd) := units bigEndian rest
    (unit :: others, odd)

def isHigh (u : UInt16) : Bool := 0xD800 ≤ u && u ≤ 0xDBFF

def isLow (u : UInt16) : Bool := 0xDC00 ≤ u && u ≤ 0xDFFF

/-- The code point that two halves stand for. -/
def pair (high low : UInt16) : CodePoint :=
  (high.toUInt32 - 0xD800) * 0x400 + (low.toUInt32 - 0xDC00) + 0x10000

/-- The code points of a list of units. A second half is taken only where it completes a pair. -/
def ofUnits : List UInt16 → List CodePoint
  | [] => []
  | [u] => if isHigh u || isLow u then [.replacement] else [u.toUInt32]
  | u :: v :: rest =>
    if isHigh u && isLow v then pair u v :: ofUnits rest
    else if isHigh u || isLow u then .replacement :: ofUnits (v :: rest)
    else u.toUInt32 :: ofUnits (v :: rest)

def decodeAs (bigEndian : Bool) (t : Text) : List CodePoint :=
  let (us, odd) := units bigEndian t
  ofUnits us ++ (if odd then [.replacement] else [])

def decode : Text → List CodePoint
  | 0xFF :: 0xFE :: rest => decodeAs false rest
  | 0xFE :: 0xFF :: rest => decodeAs true rest
  | t => decodeAs false t

end Utf16

end GoInspect
