import GoInspect.Text

/-!
# Blocks of bytes

Section contents and memory are arrays of bytes. A number is read from them little endian, and only
where all of its bytes are there.
-/

namespace GoInspect

/-- The contents of a section, a file or a piece of memory. -/
abbrev Bytes := Array UInt8

/-- The number that bytes write, least significant byte first. -/
def littleEndian : List UInt8 → Nat
  | [] => 0
  | b :: rest => b.toNat + 256 * littleEndian rest

/-- The `width` bytes that write a number, least significant first; higher bytes are cut off. -/
def littleEndianBytes : Nat → Nat → List UInt8
  | 0, _ => []
  | width + 1, n => n.toUInt8 :: littleEndianBytes width (n / 256)

namespace Bytes

/-- The bytes from `start` on, at most `count` of them. -/
def slice (b : Bytes) (start count : Nat) : Bytes := b.extract start (start + count)

/-- The whole block as a number. Of more than eight bytes the lowest eight count. -/
def toWord (b : Bytes) : UInt64 := UInt64.ofNat (littleEndian b.toList)

/-- The number in the `width` bytes at an offset, if the block holds them all. -/
def read? (b : Bytes) (offset : UInt64) (width : Nat) : Option UInt64 :=
  if offset.toNat + width ≤ b.size then some (slice b offset.toNat width).toWord else none

/-- The bytes before the first zero byte, at most `limit` of them. -/
def cString (b : Bytes) (limit : Nat) : Text :=
  Text.untilZero (slice b 0 limit).toList

end Bytes

end GoInspect
