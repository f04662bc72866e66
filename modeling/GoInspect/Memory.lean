import GoInspect.Bytes
import GoInspect.Enumeration
import GoInspect.Text.Number
import Std.Data.TreeMap

/-!
# Memory

What an inspected program holds is read through `Memory`: a read of bytes, a read of zero-terminated
text, and the way from the addresses stored in the binary to those of the running program. It is
open what stands behind it. `MappedMemory` is memory made of regions that are mapped at an
address; a read never runs from one region into the next.
-/

namespace GoInspect

inductive ReadErrorKind where
  | unmapped | outOfRange | truncated
  deriving DecidableEq, Repr

instance : Enumeration ReadErrorKind where
  all := [.unmapped, .outOfRange, .truncated]
  name
    | .unmapped => utf8 "Unmapped"
    | .outOfRange => utf8 "OutOfRange"
    | .truncated => utf8 "Truncated"

structure ReadError where
  kind : ReadErrorKind
  /-- The address that was to be read. -/
  address : UInt64
  /-- The length that was asked for. -/
  length : UInt64
  deriving DecidableEq, Repr

def ReadError.message (e : ReadError) : Text :=
  Enumeration.name e.kind ++ utf8 " (" ++ Text.decimal e.length.toNat ++ utf8 " bytes at " ++
    Text.hex e.address.toNat ++ utf8 ")"

structure Memory where
  /-- The bytes from an address on, as many as the length says. -/
  readBytes : (address length : UInt64) → Except ReadError Bytes
  /-- The bytes from an address up to a zero byte, at most as many as the limit says. -/
  readCString : (address : UInt64) → (limit : UInt32) → Except ReadError Text
  /-- Where an address stored in the binary lies in the running program. -/
  toRuntime : UInt64 → UInt64

/-- The little endian number of one to eight bytes at an address. -/
def Memory.readUnsigned (m : Memory) (address : UInt64) (width : UInt32) :
    Except ReadError UInt64 :=
  if width = 0 ∨ 8 < width then .error ⟨.outOfRange, address, width.toUInt64⟩
  else
    match m.readBytes address width.toUInt64 with
    | .error e => .error e
    | .ok bytes =>
      if bytes.size = width.toNat then .ok bytes.toWord
      else .error ⟨.truncated, address, width.toUInt64⟩

/-- The range is not empty, and pointers of the given width reach all of it. -/
def fitsAddressSpace (address length : UInt64) (pointerWidth : UInt32) : Bool :=
  if length = 0 then false
  else if 8 ≤ pointerWidth then address ≤ 0xFFFFFFFFFFFFFFFF - (length - 1)
  else
    let limit : UInt64 := (1 : UInt64) <<< (8 * pointerWidth).toUInt64
    length ≤ limit && address ≤ limit - length

/-- Regions of memory by the address they start at, and the distance of the running program from the
addresses stored in its binary. -/
structure MappedMemory where
  regions : Std.TreeMap UInt64 Bytes
  /-- What is added to an address stored in the binary. -/
  bias : UInt64

namespace MappedMemory

def empty : MappedMemory := ⟨∅, 0⟩

/-- Maps bytes at an address, instead of what was mapped at the same address. -/
def map (m : MappedMemory) (base : UInt64) (data : Bytes) : MappedMemory :=
  { m with regions := m.regions.insert base data }

/-- The start and the bytes of the region that an address lies in: the one that starts last among
those that start no later, if it is long enough. -/
def region? (m : MappedMemory) (address : UInt64) : Option (UInt64 × Bytes) :=
  (m.regions.getEntryLE? address).filter fun (base, data) => (address - base).toNat < data.size

/-- Writes a byte where a region holds its address. -/
def writeByte (m : MappedMemory) (address : UInt64) (b : UInt8) : MappedMemory :=
  match m.region? address with
  | some (base, data) => m.map base (data.setIfInBounds (address - base).toNat b)
  | none => m

/-- Writes bytes one after another, where regions hold their addresses. -/
def write (m : MappedMemory) (address : UInt64) : List UInt8 → MappedMemory
  | [] => m
  | b :: rest => (m.writeByte address b).write (address + 1) rest

def toMemory (m : MappedMemory) : Memory where
  readBytes address length :=
    match m.region? address with
    | none => .error ⟨.unmapped, address, length⟩
    | some (base, data) =>
      let offset := (address - base).toNat
      if offset + length.toNat ≤ data.size then .ok (data.slice offset length.toNat)
      else .error ⟨.truncated, address, length⟩
  readCString address limit :=
    match m.region? address with
    | none => .error ⟨.unmapped, address, limit.toUInt64⟩
    | some (base, data) =>
      .ok (Bytes.cString (data.extract (address - base).toNat) limit.toNat)
  toRuntime address := address + m.bias

end MappedMemory

end GoInspect
