import GoInspect.Enumeration
import GoInspect.Version

/-!
# Types

A type as the runtime describes it: a header that all types share, and a shape with references to
other types. References hold the address that the binary stores. They are resolved in a second step,
either to a node of the graph of all types, by its address, or to a type that was built from its
name and belongs to no graph.
-/

namespace GoInspect

/-- The kinds of types, numbered as the runtime numbers them. -/
inductive TypeKind where
  | invalid | bool | int | int8 | int16 | int32 | int64 | uint | uint8 | uint16 | uint32 | uint64
  | uintptr | float32 | float64 | complex64 | complex128 | array | chan | func | interface | map
  | pointer | slice | string | struct | unsafePointer
  deriving DecidableEq, Repr

instance : Enumeration TypeKind where
  all := [.invalid, .bool, .int, .int8, .int16, .int32, .int64, .uint, .uint8, .uint16, .uint32,
    .uint64, .uintptr, .float32, .float64, .complex64, .complex128, .array, .chan, .func,
    .interface, .map, .pointer, .slice, .string, .struct, .unsafePointer]
  name
    | .invalid => utf8 "Invalid"
    | .bool => utf8 "Bool"
    | .int => utf8 "Int"
    | .int8 => utf8 "Int8"
    | .int16 => utf8 "Int16"
    | .int32 => utf8 "Int32"
    | .int64 => utf8 "Int64"
    | .uint => utf8 "Uint"
    | .uint8 => utf8 "Uint8"
    | .uint16 => utf8 "Uint16"
    | .uint32 => utf8 "Uint32"
    | .uint64 => utf8 "Uint64"
    | .uintptr => utf8 "Uintptr"
    | .float32 => utf8 "Float32"
    | .float64 => utf8 "Float64"
    | .complex64 => utf8 "Complex64"
    | .complex128 => utf8 "Complex128"
    | .array => utf8 "Array"
    | .chan => utf8 "Chan"
    | .func => utf8 "Func"
    | .interface => utf8 "Interface"
    | .map => utf8 "Map"
    | .pointer => utf8 "Pointer"
    | .slice => utf8 "Slice"
    | .string => utf8 "String"
    | .struct => utf8 "Struct"
    | .unsafePointer => utf8 "UnsafePointer"

/-- The kinds whose types refer to no other type. -/
inductive BasicKind where
  | invalid | bool | int | int8 | int16 | int32 | int64 | uint | uint8 | uint16 | uint32 | uint64
  | uintptr | float32 | float64 | complex64 | complex128 | string | unsafePointer
  deriving DecidableEq, Repr

namespace BasicKind

def toKind : BasicKind → TypeKind
  | invalid => .invalid
  | bool => .bool
  | int => .int
  | int8 => .int8
  | int16 => .int16
  | int32 => .int32
  | int64 => .int64
  | uint => .uint
  | uint8 => .uint8
  | uint16 => .uint16
  | uint32 => .uint32
  | uint64 => .uint64
  | uintptr => .uintptr
  | float32 => .float32
  | float64 => .float64
  | complex64 => .complex64
  | complex128 => .complex128
  | string => .string
  | unsafePointer => .unsafePointer

def spelling : BasicKind → Text
  | invalid => utf8 "invalid"
  | bool => utf8 "bool"
  | int => utf8 "int"
  | int8 => utf8 "int8"
  | int16 => utf8 "int16"
  | int32 => utf8 "int32"
  | int64 => utf8 "int64"
  | uint => utf8 "uint"
  | uint8 => utf8 "uint8"
  | uint16 => utf8 "uint16"
  | uint32 => utf8 "uint32"
  | uint64 => utf8 "uint64"
  | uintptr => utf8 "uintptr"
  | float32 => utf8 "float32"
  | float64 => utf8 "float64"
  | complex64 => utf8 "complex64"
  | complex128 => utf8 "complex128"
  | string => utf8 "string"
  | unsafePointer => utf8 "unsafe.Pointer"

end BasicKind

def TypeKind.index (k : TypeKind) : Nat := (Enumeration.all : List TypeKind).idxOf k

structure TypeHeader where
  size : UInt64 := 0
  /-- The leading bytes of an object that may hold pointers. -/
  ptrBytes : UInt64 := 0
  hash : UInt32 := 0
  tflag : UInt8 := 0
  /-- The alignment of a variable, as it is stored. -/
  align : UInt8 := 0
  fieldAlign : UInt8 := 0
  kindByte : UInt8 := 0
  name : Text := []
  deriving DecidableEq, Repr

/-- The alignment that layout goes by. A stored zero stands for one. -/
def TypeHeader.effectiveAlign (h : TypeHeader) : UInt64 :=
  if h.align = 0 then 1 else h.align.toUInt64

structure Method (ρ : Type) where
  name : Text
  type : ρ
  deriving DecidableEq, Repr

structure Field (ρ : Type) where
  name : Text
  type : ρ
  /-- Where the field lies in the struct. -/
  offset : UInt64
  deriving DecidableEq, Repr

/-- What makes types of one kind differ, with references of any sort to other types. -/
inductive Shape (ρ : Type) where
  | basic (kind : BasicKind)
  | array (elem sliceType : ρ) (length : UInt64)
  | chan (elem : ρ) (direction : UInt64)
  | func (inputs outputs : List ρ) (variadic : Bool)
  | interface (methods : List (Method ρ))
  | map (key value bucket : ρ)
  | pointer (elem : ρ)
  | slice (elem : ρ)
  | struct (fields : List (Field ρ))
  deriving DecidableEq, Repr

namespace Shape

variable {ρ σ : Type}

def kind : Shape ρ → TypeKind
  | basic k => k.toKind
  | array .. => .array
  | chan .. => .chan
  | func .. => .func
  | interface .. => .interface
  | map .. => .map
  | pointer .. => .pointer
  | slice .. => .slice
  | struct .. => .struct

/-- The references of a shape, in the order in which they are followed. -/
def refs : Shape ρ → List ρ
  | basic _ => []
  | array elem sliceType _ => [elem, sliceType]
  | chan elem _ => [elem]
  | func inputs outputs _ => inputs ++ outputs
  | interface methods => methods.map Method.type
  | map key value bucket => [key, value, bucket]
  | pointer elem => [elem]
  | slice elem => [elem]
  | struct fields => fields.map Field.type

/-- The shape with every reference replaced. -/
def mapRefs (f : ρ → σ) : Shape ρ → Shape σ
  | basic k => basic k
  | array elem sliceType length => array (f elem) (f sliceType) length
  | chan elem direction => chan (f elem) direction
  | func inputs outputs variadic => func (inputs.map f) (outputs.map f) variadic
  | interface methods => interface (methods.map fun m => ⟨m.name, f m.type⟩)
  | map key value bucket => map (f key) (f value) (f bucket)
  | pointer elem => pointer (f elem)
  | slice elem => slice (f elem)
  | struct fields => struct (fields.map fun x => ⟨x.name, f x.type, x.offset⟩)

@[simp] theorem kind_mapRefs (f : ρ → σ) (s : Shape ρ) : (s.mapRefs f).kind = s.kind := by
  cases s <;> rfl

@[simp] theorem refs_mapRefs (f : ρ → σ) (s : Shape ρ) : (s.mapRefs f).refs = s.refs.map f := by
  cases s <;> simp [mapRefs, refs, Function.comp_def]

end Shape

/-- Where a type is to be found. -/
inductive TypeHandle (τ : Type) where
  /-- In the graph, at an address. -/
  | node (address : UInt64)
  /-- Here: it was built and belongs to no graph. -/
  | built (type : τ)

/-- A reference to a type: the address that the binary stores, and what it was resolved to. -/
structure TypeRef (τ : Type) where
  /-- The stored address, zero in types that were built. -/
  address : UInt64
  /-- The type, if the reference was resolved to one. -/
  target : Option (TypeHandle τ)

inductive GoType where
  | mk (header : TypeHeader) (version : VersionBound) (shape : Shape (TypeRef GoType))

namespace GoType

def header : GoType → TypeHeader
  | mk h _ _ => h

def version : GoType → VersionBound
  | mk _ v _ => v

def shape : GoType → Shape (TypeRef GoType)
  | mk _ _ s => s

variable (t : GoType)

def kind : TypeKind := t.shape.kind

def name : Text := t.header.name

def size : UInt64 := t.header.size

/-- The alignment that layout goes by. -/
def align : UInt64 := t.header.effectiveAlign

/-- The addresses that the type refers to, in the order in which they are followed. -/
def childAddresses : List UInt64 := t.shape.refs.map TypeRef.address

/-- The type with every reference to an address in `known` resolved to the node there, and every
other reference left open. -/
def resolve (known : UInt64 → Bool) : GoType :=
  mk t.header t.version <| t.shape.mapRefs fun r =>
    ⟨r.address, if known r.address then some (.node r.address) else none⟩

/-- A type whose references are known by their addresses only. -/
def ofAddresses (header : TypeHeader) (version : VersionBound) (shape : Shape UInt64) : GoType :=
  mk header version (shape.mapRefs fun a => ⟨a, none⟩)

end GoType

/-- The least multiple of the second number that is not below the first, as 64-bit arithmetic gives
it. Zero has no multiples to round to. -/
def roundUp (n multiple : UInt64) : UInt64 :=
  if multiple = 0 then n else (n + multiple - 1) / multiple * multiple

end GoInspect
