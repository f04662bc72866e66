import GoInspect.Text

/-!
# UTF-8

Lenient decoding: every malformed sequence becomes one replacement character, and decoding goes on
with the first byte that the sequence did not take. A sequence takes its lead byte and as many
continuation bytes as the lead byte asks for, fewer where another kind of byte comes first.
-/

namespace GoInspect

/-- The number of a character. Only scalar values come out of the decoders. -/
abbrev CodePoint := UInt32

namespace CodePoint

/-- What stands for a malformed sequence. -/
def replacement : CodePoint := 0xFFFD

/-- The halves of a UTF-16 pair, which are no characters by themselves. -/
def isSurrogate (c : CodePoint) : Bool := 0xD800 ≤ c && c ≤ 0xDFFF

/-- A character: in range, and no surrogate. -/
def isScalar (c : CodePoint) : Bool := c ≤ 0x10FFFF && !c.isSurrogate

/-- Controls, separators other than the plain space, format characters, private use and the
replacement character are not shown as they are. -/
def isPrintable (c : CodePoint) : Bool :=
  !(c < 0x20 || (0x7F ≤ c && c ≤ 0xA0) || c == 0xAD) &&
  !((0x2000 ≤ c && c ≤ 0x200F) || (0x2028 ≤ c && c ≤ 0x202F) || (0x205F ≤ c && c ≤ 0x206F)) &&
  !(c == 0x3000 || c == 0xFEFF || (0xFFF9 ≤ c && c ≤ 0xFFFD)) &&
  !((0xE000 ≤ c && c ≤ 0xF8FF) || 0xF0000 ≤ c)

/-- What is left of a code point above its lowest `bits` bits, as far as a byte holds it. -/
def leadBits (c bits : CodePoint) : UInt8 := (c >>> bits).toUInt8

/-- The continuation byte for the six bits above the lowest `bits`. -/
def continuation (c bits : CodePoint) : UInt8 := 0x80 ||| ((c >>> bits).toUInt8 &&& 0x3F)

/-- The bytes of a code point. Four bytes hold 21 bits; of a larger number the lead byte keeps what
fits it. -/
def encode (c : CodePoint) : Text :=
  if c < 0x80 then [c.toUInt8]
  else if c < 0x800 then [0xC0 ||| leadBits c 6, continuation c 0]
  else if c < 0x10000 then [0xE0 ||| leadBits c 12, continuation c 6, continuation c 0]
  else [0xF0 ||| leadBits c 18, continuation c 12, continuation c 6, continuation c 0]

def encodeAll (cs : List CodePoint) : Text := cs.flatMap encode

end CodePoint

namespace Utf8

def isContinuation (b : UInt8) : Bool := b &&& 0xC0 == 0x80

/-- What a lead byte announces. -/
structure Lead where
  /-- Continuation bytes to follow. -/
  continuations : Nat
  /-- The bits that the lead byte itself carries. -/
  bits : CodePoint
  /-- The least code point that needs a sequence of this length. -/
  minimum : CodePoint
  deriving DecidableEq, Repr

/-- The announcement of a lead byte of a longer sequence. Continuation bytes and bytes from 0xF8 on
announce nothing. -/
def lead? (b : UInt8) : Option Lead :=
  if b &&& 0xE0 == 0xC0 then some ⟨1, (b &&& 0x1F).toUInt32, 0x80⟩
  else if b &&& 0xF0 == 0xE0 then some ⟨2, (b &&& 0x0F).toUInt32, 0x800⟩
  else if b &&& 0xF8 == 0xF0 then some ⟨3, (b &&& 0x07).toUInt32, 0x10000⟩
  else none

/-- The continuation bytes, at most `n`, that `t` starts with. -/
def continuations (n : Nat) (t : Text) : Text := (t.take n).takeWhile isContinuation

/-- The number written by the bits of a lead byte and six bits of each continuation byte. -/
def value (bits : CodePoint) (tail : Text) : CodePoint :=
  tail.foldl (fun v b => (v <<< 6) ||| (b &&& 0x3F).toUInt32) bits

/-- The code point of a sequence, or the replacement character where the sequence is cut short,
longer than its value needs, or not of a character. -/
def Lead.codePoint (lead : Lead) (tail : Text) : CodePoint :=
  let c := value lead.bits tail
  if tail.length = lead.continuations ∧ lead.minimum ≤ c ∧ c.isScalar then c
  else .replacement

def decode : Text → List CodePoint
  | [] => []
  | b :: rest =>
    if b < 0x80 then b.toUInt32 :: decode rest
    else
      match lead? b with
      | none => .replacement :: decode rest
      | some lead =>
        let tail := continuations lead.continuations rest
        lead.codePoint tail :: decode (rest.drop tail.length)
termination_by t => t.length

/-- Arbitrary bytes as well-formed UTF-8. -/
def lenient (t : Text) : Text := CodePoint.encodeAll (decode t)

/-- The text after the first code point of well-formed text. -/
def dropFirst : Text → Text
  | [] => []
  | _ :: rest => rest.dropWhile isContinuation

end Utf8

end GoInspect
