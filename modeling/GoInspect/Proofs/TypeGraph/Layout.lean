import GoInspect.Proofs.Utf8
import GoInspect.Proofs.Varint
import GoInspect.TypeGraph.Descriptor

/-!
# How type descriptors are written

A descriptor consists of a header, the data of its kind behind it, and parts elsewhere in the
section: the names, the methods of an interface and the fields of a struct. `Written` says what the
section has to hold for that, without a choice of places: parts may stand in any order, share bytes,
and have anything between them. Places count from the start of the section.
-/

namespace GoInspect

namespace TypeSection

/-- A section with all of its bytes, for pointers of one of the two widths, and releases that agree
on how lengths of names are written. Its end is an address, so that no address in it wraps
around. -/
structure Proper (s : TypeSection) : Prop where
  width : s.pointerWidth = 4 ∨ s.pointerWidth = 8
  full : s.data.size = s.high.toNat - s.low.toNat
  version : 17 ≤ s.version.min ∨ s.version.max ≤ 16

variable (s : TypeSection)

def wordBytes (words : List UInt64) : List UInt8 :=
  words.flatMap fun w => littleEndianBytes s.pointerWidth.toNat w.toNat

@[simp] theorem length_wordBytes (words : List UInt64) :
    (s.wordBytes words).length = words.length * s.pointerWidth.toNat :=
  length_flatMap_even fun w => length_littleEndianBytes _ w.toNat

structure HasWords (place : Nat) (words : List UInt64) : Prop where
  fits : ∀ w ∈ words, w.toNat < 256 ^ s.pointerWidth.toNat
  written : s.data.Holds place (s.wordBytes words)

def lengthBytes (version : VersionBound) (length : Nat) : List UInt8 :=
  if 17 ≤ version.min then Varint.encode (UInt32.ofNat length)
  else littleEndianBytes 1 (length / 256) ++ littleEndianBytes 1 (length % 256)

/-- A name stands at a place: a byte of flags, the length, and the text. -/
structure HasName (place : Nat) (text : Text) : Prop where
  short : text.length < if 17 ≤ s.version.min then 2 ^ 32 else 2 ^ 16
  written : s.data.Holds (place + 1) (lengthBytes s.version text.length ++ text)

/-- The records of a list stand one behind the other from an address on. -/
def HasMembers {α : Type} (record : Nat → α → Prop) (start : UInt64) (width : Nat) (l : List α) :
    Prop :=
  ∀ i a, l[i]? = some a → ∃ place, start.toNat + i * width = s.low.toNat + place ∧ record place a

/-- A method: the places of its name and of its type. -/
def HasMethod (place : Nat) (m : Method UInt64) : Prop :=
  ∃ name type : Nat, name < 2 ^ 32 ∧ type < 2 ^ 32 ∧
    s.data.Holds place (littleEndianBytes 4 name ++ littleEndianBytes 4 type) ∧
    s.HasName name m.name ∧ Utf8.WellFormed m.name ∧ m.type = s.low + UInt64.ofNat type

/-- A field: the addresses of its name and of its type, and its offset. From 1.9 to 1.18 offsets are
shifted, and the bit below tells embedded fields. -/
def HasField (place : Nat) (f : Field UInt64) : Prop :=
  ∃ (name : Nat) (stored : UInt64),
    s.HasWords place [s.low + UInt64.ofNat name, f.type, stored] ∧
    s.HasName name f.name ∧ Utf8.WellFormed f.name ∧
    if 9 ≤ s.version.min ∧ s.version.max ≤ 18 then stored.toNat / 2 = f.offset.toNat
    else stored = f.offset

/-- The data of a kind. The first pointer of interfaces and structs is that of the package. -/
def HasShape (tflag : UInt8) (place : Nat) : Shape UInt64 → Prop
  | .basic _ => True
  | .array elem sliceType length => s.HasWords place [elem, sliceType, length]
  | .chan elem direction => s.HasWords place [elem, direction]
  | .func inputs outputs variadic =>
    inputs.length < 2 ^ 16 ∧ outputs.length < 2 ^ 15 ∧
      s.data.Holds place (littleEndianBytes 2 inputs.length ++
        littleEndianBytes 2 (outputs.length + if variadic then 2 ^ 15 else 0)) ∧
      s.HasWords (place + s.pointerWidth.toNat + if tflag &&& 1 = 0 then 0 else 16)
        (inputs ++ outputs)
  | .interface methods => ∃ start,
    s.HasWords (place + s.pointerWidth.toNat) [start, UInt64.ofNat methods.length] ∧
      s.HasMembers s.HasMethod start 8 methods
  | .map key value bucket => s.HasWords place [key, value, bucket]
  | .pointer elem => s.HasWords place [elem]
  | .slice elem => s.HasWords place [elem]
  | .struct fields => ∃ start,
    s.HasWords (place + s.pointerWidth.toNat) [start, UInt64.ofNat fields.length] ∧
      s.HasMembers s.HasField start (3 * s.pointerWidth.toNat) fields

/-- The numbers of a header and their widths: those of the type, the two pointers that nobody reads,
and the places of the name and of the type of pointers. -/
def headerNumbers (d : Descriptor) (equal gcData name : Nat) : List (Nat × Nat) :=
  let pointer := s.pointerWidth.toNat
  [(pointer, d.header.size.toNat), (pointer, d.header.ptrBytes.toNat), (4, d.header.hash.toNat),
    (1, d.header.tflag.toNat), (1, d.header.align.toNat), (1, d.header.fieldAlign.toNat),
    (1, d.header.kindByte.toNat), (pointer, equal), (pointer, gcData), (4, name),
    (4, d.ptrToThis.toNat)]

/-- The text that stands for the name of a type, which may have an extra leading character. -/
def storedName (h : TypeHeader) (extra : CodePoint) : Text :=
  if h.tflag &&& 2 = 0 then h.name else extra.encode ++ h.name

/-- The number of the kind that a shape belongs to. -/
def kindNumber {ρ : Type} : Shape ρ → Nat
  | .basic .invalid => 0
  | .basic .bool => 1
  | .basic .int => 2
  | .basic .int8 => 3
  | .basic .int16 => 4
  | .basic .int32 => 5
  | .basic .int64 => 6
  | .basic .uint => 7
  | .basic .uint8 => 8
  | .basic .uint16 => 9
  | .basic .uint32 => 10
  | .basic .uint64 => 11
  | .basic .uintptr => 12
  | .basic .float32 => 13
  | .basic .float64 => 14
  | .basic .complex64 => 15
  | .basic .complex128 => 16
  | .array .. => 17
  | .chan .. => 18
  | .func .. => 19
  | .interface .. => 20
  | .map .. => 21
  | .pointer .. => 22
  | .slice .. => 23
  | .basic .string => 24
  | .struct .. => 25
  | .basic .unsafePointer => 26

/-- A type is written at a place. The fields of a struct stand in any order. -/
structure Written (place : Nat) (d : Descriptor) : Prop where
  header : ∃ equal gcData name extra, s.HasName name (storedName d.header extra) ∧
    extra.isScalar = true ∧
    (∀ x ∈ s.headerNumbers d equal gcData name, x.2 < 256 ^ x.1) ∧
    s.data.Holds place
      ((s.headerNumbers d equal gcData name).flatMap fun x => littleEndianBytes x.1 x.2)
  name : Utf8.WellFormed d.header.name
  kind : kindNumber d.shape = d.header.kindByte.toNat % 32
  shape : s.HasShape d.header.tflag (place + (4 * s.pointerWidth.toNat + 16)) d.shape

end TypeSection

end GoInspect
