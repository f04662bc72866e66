import GoInspect.Log
import GoInspect.Settings
import GoInspect.Text.Utf8
import GoInspect.TypeGraph
import GoInspect.Value
import Std.Data.TreeSet

/-!
# Reading values

What all extraction shares: the surroundings an object is read in, the trace that reading leaves,
and the objects that hold no others. Reading an object may lead to another one through a pointer;
how the other one is read is a parameter here.
-/

namespace GoInspect

namespace Extract

/-- What values are read from, and how. -/
structure Source where
  memory : Memory
  pointerWidth : UInt32
  graph : TypeGraph
  settings : Settings

/-- What reading leaves behind: the pointers that were followed, so that each is followed once, and
the events. -/
structure Trace where
  /-- The addresses of the objects that pointers led to. -/
  visited : Std.TreeSet UInt64 := ∅
  /-- The events, first to last. -/
  events : Array Event := #[]

/-- A step of reading. Nothing comes back where the bound on the nesting of steps is met. -/
abbrev Reading := StateT Trace Option

/-- How the object of a type at an address is read while a depth lasts. -/
abbrev Reader := (type : GoType) → (address : UInt64) → (depth : UInt32) → Reading Value

def note (e : Event) : Reading Unit := modify fun t => { t with events := t.events.push e }

def noteIf (condition : Bool) (e : Event) : Reading Unit := if condition then note e else pure ()

/-- Takes note of an address, and tells whether it is new. -/
def visit (address : UInt64) : Reading Bool := do
  let t ← get
  if t.visited.contains address then pure false
  else
    set { t with visited := t.visited.insert address }
    pure true

namespace Source

variable (s : Source)

/-- The number at an address, if pointers reach all of it and it can be read. -/
def readUnsigned? (address : UInt64) (width : UInt32) : Option UInt64 :=
  if fitsAddressSpace address width.toUInt64 s.pointerWidth then
    (s.memory.readUnsigned address width).toOption
  else none

def readWord? (address : UInt64) : Option UInt64 := s.readUnsigned? address s.pointerWidth

/-- The bytes at an address, if pointers reach all of them and they can be read. -/
def readBytes? (address length : UInt64) : Option Bytes :=
  if fitsAddressSpace address length s.pointerWidth then
    (s.memory.readBytes address length).toOption
  else none

/-- The address of the pointer sized number that is `n` pointers behind an address. -/
def wordAt (address : UInt64) (n : UInt32) : UInt64 := address + (n * s.pointerWidth).toUInt64

end Source

def certain : Float := ConfidenceLevel.certain.value

/-- A number of `width` bytes as a 64-bit word. -/
def signExtend (raw : UInt64) (width : UInt32) : UInt64 :=
  if width < 8 ∧ raw.toNat.testBit (8 * width.toNat - 1) then
    raw + UInt64.ofNat (0x10000000000000000 - Nat.pow 256 width.toNat)
  else raw

variable (s : Source)

def integer (address : UInt64) (width : UInt32) (isSigned : Bool) : Value :=
  match s.readUnsigned? address width with
  | none => .bad
  | some raw => .mk certain (.integer (if isSigned then signExtend raw width else raw) isSigned)

def single? (address : UInt64) : Option Double :=
  (s.readUnsigned? address 4).map fun raw => .ofSingle raw.toUInt32

def double? (address : UInt64) : Option Double := (s.readUnsigned? address 8).map Double.mk

def complex (re im : Option Double) : Value :=
  match re, im with
  | some re, some im => .mk certain (.complex re im)
  | _, _ => .bad

def float (value : Option Double) : Value :=
  match value with
  | some d => .mk certain (.float d)
  | none => .bad

/-- A truth value. Bytes other than 0 and 1 are none. -/
def bool (address : UInt64) : Value :=
  match s.readUnsigned? address 1 with
  | some 0 => .mk certain (.bool false)
  | some 1 => .mk certain (.bool true)
  | _ => .bad

def word (address : UInt64) : Value :=
  match s.readWord? address with
  | some value => .pointer value certain
  | none => .bad

/-- Bytes of a string that are read at most. -/
def longString : UInt64 := 1000

def printableShare (cs : List CodePoint) : Float :=
  Float.ofNat (cs.countP CodePoint.isPrintable) / Float.ofNat cs.length

/-- The confidence in a string from that in its length. -/
def textConfidence (score : Float) (bytes : Bytes) : Float :=
  let cs := Utf8.decode bytes.toList
  if cs.isEmpty then score / 2 else (score + printableShare cs) / 2

/-- A string. Empty ones are rare, so that one is probably something else. -/
def string (address : UInt64) : Value :=
  match s.readWord? address, s.readWord? (s.wordAt address 1) with
  | some base, some length =>
    if length = 0 then .mk ConfidenceLevel.low.value (.string base 0 #[])
    else
      let score := Confidence.ofLength length 40 5
      match s.readBytes? base (min length longString) with
      | none => .mk (score * 0.2) (.string base length #[])
      | some bytes => .mk (textConfidence score bytes) (.string base length bytes)
  | _, _ => .bad

def basic (kind : BasicKind) (address : UInt64) : Value :=
  match kind with
  | .invalid => .bad
  | .bool => bool s address
  | .int => integer s address s.pointerWidth true
  | .int8 => integer s address 1 true
  | .int16 => integer s address 2 true
  | .int32 => integer s address 4 true
  | .int64 => integer s address 8 true
  | .uint => integer s address s.pointerWidth false
  | .uint8 => integer s address 1 false
  | .uint16 => integer s address 2 false
  | .uint32 => integer s address 4 false
  | .uint64 => integer s address 8 false
  | .uintptr | .unsafePointer => word s address
  | .float32 => float (single? s address)
  | .float64 => float (double? s address)
  | .complex64 => complex (single? s address) (single? s (address + 4))
  | .complex128 => complex (double? s address) (double? s (address + 8))
  | .string => string s address

end Extract

end GoInspect
