import GoInspect.GoType
import GoInspect.Log
import GoInspect.Text.Utf8
import GoInspect.Varint

/-!
# Type descriptors

The type section of a binary holds a descriptor for each type: a header, data that depends on the
kind, and names and member lists that both point to. Numbers in descriptors are addresses, offsets
into the section, or offsets of names, depending on the field. A descriptor that does not hold
together is rejected with the reason.
-/

namespace GoInspect

structure TypeSection where
  /-- The address of the first byte in the running program. -/
  low : UInt64
  /-- The address behind the last byte. -/
  high : UInt64
  data : Bytes
  /-- The releases that may have built the binary. -/
  version : VersionBound
  pointerWidth : UInt32
  deriving Repr

namespace TypeSection

inductive Rejection where
  | pastSection (address : UInt64)
  | unnamed (address : UInt64)
  | kindUnknown (name : Text) (address : UInt64) (kind : Nat)
  | malformed (name : Text) (address : UInt64) (kind : TypeKind)
  deriving DecidableEq, Repr

def Rejection.events : Rejection → List Event
  | pastSection address => [.typePastSection address]
  | unnamed address => [.typeUnnamed address]
  | kindUnknown name address kind => [.typeKindUnknown name address kind]
  | malformed name address kind => [.typeDataMalformed name address (Enumeration.name kind)]

/-- The header of a descriptor, with places instead of names. -/
structure RawHeader where
  size : UInt64
  /-- The leading bytes of an object that may hold pointers. -/
  ptrBytes : UInt64
  hash : UInt32
  tflag : UInt8
  align : UInt8
  fieldAlign : UInt8
  kindByte : UInt8
  nameOffset : UInt64
  /-- The place of the type of pointers to this one, if there is one. -/
  ptrToThis : UInt64
  deriving DecidableEq, Repr

/-- A descriptor that holds together. -/
structure Descriptor where
  header : TypeHeader
  /-- The data of the kind. -/
  shape : Shape UInt64
  /-- The place of the type of pointers to this one, if there is one. -/
  ptrToThis : UInt64
  deriving DecidableEq, Repr

variable (s : TypeSection)

def read? (offset : UInt64) (width : Nat) : Option UInt64 := s.data.read? offset width

/-- The pointer sized number at an offset. -/
def word? (offset : UInt64) : Option UInt64 := s.read? offset s.pointerWidth.toNat

def contains (address : UInt64) : Bool := s.low ≤ address && address < s.high

def headerWidth : UInt64 := (4 * s.pointerWidth + 16).toUInt64

/-- The header at an offset would run past the end of the section. -/
def runsPast (offset : UInt64) : Bool := s.high < s.low + offset + s.headerWidth

/-- The place of a field of the header behind some pointers and bytes. -/
def headerField (offset : UInt64) (pointers bytes : UInt32) : UInt64 :=
  offset + (pointers * s.pointerWidth + bytes).toUInt64

def rawHeader? (offset : UInt64) : Option RawHeader := do
  let size ← s.word? offset
  let ptrBytes ← s.word? (s.headerField offset 1 0)
  let hash ← s.read? (s.headerField offset 2 0) 4
  let tflag ← s.read? (s.headerField offset 2 4) 1
  let align ← s.read? (s.headerField offset 2 5) 1
  let fieldAlign ← s.read? (s.headerField offset 2 6) 1
  let kindByte ← s.read? (s.headerField offset 2 7) 1
  let nameOffset ← s.read? (s.headerField offset 4 8) 4
  let ptrToThis ← s.read? (s.headerField offset 4 12) 4
  pure
    { size, ptrBytes, hash := hash.toUInt32, tflag := tflag.toUInt8, align := align.toUInt8
      fieldAlign := fieldAlign.toUInt8, kindByte := kindByte.toUInt8, nameOffset, ptrToThis }

/-- A length of 16 bits, big endian, and the offset after it. -/
def shortLength? (offset : UInt64) : Option (Nat × Nat) := do
  let high ← s.read? offset 1
  let low ← s.read? (offset + 1) 1
  pure (high.toNat * 256 + low.toNat, offset.toNat + 2)

/-- A length of variable width, and the offset after it. -/
def varintLength? (offset : UInt64) : Option (Nat × Nat) :=
  (Varint.read? s.data offset.toNat).map fun (value, next) => (value.toNat, next)

/-- The bytes of a name as well-formed text. -/
def nameText (start length : Nat) : Text := Utf8.lenient (s.data.slice start length).toList

/-- The name of a type. It has to lie in the section as a whole. A bound that straddles the change
of how lengths are written leaves no way to read it. With the second flag the name carries an extra
leading character. -/
def typeName? (offset : UInt64) (tflag : UInt8) : Option Text :=
  if s.high ≤ s.low + offset then none
  else
    let length :=
      if s.version.varintNames then s.varintLength? offset
      else if s.version.max ≤ 16 then s.shortLength? offset
      else none
    length.bind fun (length, start) =>
      if start + length ≤ s.data.size then
        let name := s.nameText start length
        some (if tflag &&& 2 = 0 then name else Utf8.dropFirst name)
      else none

/-- The name of a field or a method, cut at the end of the section. -/
def memberName? (offset : UInt64) : Option Text :=
  let length := if s.version.min ≤ 16 then s.shortLength? offset else s.varintLength? offset
  length.bind fun (length, start) =>
    if start ≤ s.data.size then some (s.nameText start length) else none

/-- The `count` pointer sized numbers from an offset on. -/
def words? (offset : UInt64) (count : Nat) : Option (List UInt64) :=
  (List.range count).mapM fun i =>
    s.word? (offset + UInt64.ofNat i * s.pointerWidth.toUInt64)

/-- The method whose record lies at an address, if the record can be read. -/
def method? (address : UInt64) : Option (Method UInt64) :=
  if s.contains address then do
    let name ← s.read? (address - s.low) 4
    let type ← s.read? (address - s.low + 4) 4
    pure ⟨(s.memberName? (name + 1)).getD [], s.low + type⟩
  else none

/-- The field whose record lies at an address, if the record can be read. -/
def field? (address : UInt64) : Option (Field UInt64) :=
  if s.contains address then do
    let name ← s.word? (address - s.low)
    let type ← s.word? (address - s.low + s.pointerWidth.toUInt64)
    let offset ← s.word? (address - s.low + 2 * s.pointerWidth.toUInt64)
    pure
      ⟨(s.memberName? (name - s.low + 1)).getD [], type,
        if s.version.shiftedFieldOffsets then offset >>> 1 else offset⟩
  else none

/-- The records of a list that can be read, given the width of a record. -/
def members {α : Type} (member? : UInt64 → Option α) (start : UInt64) (width : UInt64)
    (count : Nat) : List α :=
  (List.range count).filterMap fun i => member? (start + UInt64.ofNat i * width)

/-- Parameters and results of a function type. The counts take four bytes, the list starts one
pointer after them, and 16 further bytes later with the first flag. The top bit of the number of
results marks a variadic function. -/
def func? (tflag : UInt8) (offset : UInt64) : Option (Shape UInt64) := do
  let inputCount ← s.read? offset 2
  let outputCount ← s.read? (offset + 2) 2
  let start := offset + s.pointerWidth.toUInt64 + (if tflag &&& 1 = 0 then 0 else 16)
  let inputs ← s.words? start inputCount.toNat
  let outputs ←
    s.words? (start + inputCount * s.pointerWidth.toUInt64) (outputCount &&& 0x7FFF).toNat
  pure (.func inputs outputs (outputCount &&& 0x8000 != 0))

def interface? (offset : UInt64) : Option (Shape UInt64) := do
  let start ← s.word? (offset + s.pointerWidth.toUInt64)
  let count ← s.word? (offset + 2 * s.pointerWidth.toUInt64)
  if s.data.size / 8 < count.toNat then none
  else pure (.interface (members s.method? start 8 count.toNat))

/-- The fields of a struct in the order of their offsets. -/
def struct? (offset : UInt64) : Option (Shape UInt64) := do
  let start ← s.word? (offset + s.pointerWidth.toUInt64)
  let count ← s.word? (offset + 2 * s.pointerWidth.toUInt64)
  let width := 3 * s.pointerWidth
  if s.data.size / width.toNat < count.toNat then none
  else
    let fields := members s.field? start width.toUInt64 count.toNat
    pure (.struct (fields.mergeSort fun a b => a.offset ≤ b.offset))

def shape? (kind : TypeKind) (tflag : UInt8) (offset : UInt64) : Option (Shape UInt64) :=
  let word := fun n : UInt64 => s.word? (offset + n * s.pointerWidth.toUInt64)
  match kind with
  | .array => do pure (.array (← word 0) (← word 1) (← word 2))
  | .chan => do pure (.chan (← word 0) (← word 1))
  | .func => s.func? tflag offset
  | .interface => s.interface? offset
  | .map => do pure (.map (← word 0) (← word 1) (← word 2))
  | .pointer => do pure (.pointer (← word 0))
  | .slice => do pure (.slice (← word 0))
  | .struct => s.struct? offset
  | .invalid => some (.basic .invalid)
  | .bool => some (.basic .bool)
  | .int => some (.basic .int)
  | .int8 => some (.basic .int8)
  | .int16 => some (.basic .int16)
  | .int32 => some (.basic .int32)
  | .int64 => some (.basic .int64)
  | .uint => some (.basic .uint)
  | .uint8 => some (.basic .uint8)
  | .uint16 => some (.basic .uint16)
  | .uint32 => some (.basic .uint32)
  | .uint64 => some (.basic .uint64)
  | .uintptr => some (.basic .uintptr)
  | .float32 => some (.basic .float32)
  | .float64 => some (.basic .float64)
  | .complex64 => some (.basic .complex64)
  | .complex128 => some (.basic .complex128)
  | .string => some (.basic .string)
  | .unsafePointer => some (.basic .unsafePointer)

/-- The header that a descriptor gives its type. -/
def RawHeader.named (h : RawHeader) (name : Text) : TypeHeader :=
  { size := h.size, ptrBytes := h.ptrBytes, hash := h.hash, tflag := h.tflag, align := h.align
    fieldAlign := h.fieldAlign, kindByte := h.kindByte, name }

/-- The number of the kind, without the flags above it. -/
def RawHeader.kindNumber (h : RawHeader) : Nat := h.kindByte.toNat % 32

def decode (offset : UInt64) : Except Rejection Descriptor :=
  let address := s.low + offset
  if s.runsPast offset then .error (.pastSection address)
  else
    match s.rawHeader? offset with
    -- A header that is not there leaves no place of a name.
    | none => .error (.unnamed address)
    | some h =>
      match s.typeName? (h.nameOffset + 1) h.tflag with
      | none => .error (.unnamed address)
      | some name =>
        match (Enumeration.ofIndex? h.kindNumber : Option TypeKind) with
        | none => .error (.kindUnknown name address h.kindNumber)
        | some kind =>
          match s.shape? kind h.tflag (offset + s.headerWidth) with
          | none => .error (.malformed name address kind)
          | some shape => .ok ⟨h.named name, shape, h.ptrToThis⟩

/-- The type of a descriptor, its references not resolved. -/
def Descriptor.type (d : Descriptor) (version : VersionBound) : GoType :=
  .ofAddresses d.header version d.shape

/-- The place of the type of pointers to this one, unless the descriptor leaves it out. -/
def Descriptor.pointerOffsets (d : Descriptor) : List UInt64 :=
  if d.ptrToThis = 0 ∨ d.ptrToThis = 0xFFFFFFFF then [] else [d.ptrToThis]

/-- The offsets of the types that a descriptor leads to: those of the types it refers to, as far as
they lie in the section, and that of the type of pointers to this one. -/
def successors (d : Descriptor) : List UInt64 :=
  ((d.shape.refs.filter s.contains).map (· - s.low)) ++ d.pointerOffsets

/-- What a descriptor is worth in the log: the references that lead out of the section. -/
def escapes (d : Descriptor) : List Event :=
  (d.shape.refs.filter (!s.contains ·)).map (.childOutside d.header.name)

/-- A descriptor begins inside the section. -/
theorem decode_inside {offset : UInt64} {d : Descriptor} (h : s.decode offset = .ok d) :
    offset.toNat ≤ s.data.size := by
  unfold decode at h
  simp only at h
  split at h
  · cases h
  · split at h
    · cases h
    · next raw eq =>
      unfold rawHeader? at eq
      cases first : s.word? offset with
      | none => simp [first] at eq
      | some size =>
        unfold word? read? Bytes.read? at first
        split at first
        · omega
        · cases first

end TypeSection

end GoInspect
