import GoInspect.FunctionTable
import GoInspect.Image
import GoInspect.TypeGraph.Closure

/-!
# Module data

The runtime describes a binary to itself in a record of words, its module data. The record begins
with the address of the function table, by which it is found, and repeats the bounds of the text, by
which it is checked. It tells where the type section lies and where the links to its types are, and
from the links the type graph grows.
-/

namespace GoInspect

/-- Which words of the module data hold what. -/
structure ModuleLayout where
  minPc : Nat
  maxPc : Nat
  types : Nat
  etypes : Nat
  links : Nat
  linkCount : Nat
  deriving DecidableEq, Repr

/-- The layout that all releases of a bound share, if there is one. -/
def ModuleLayout.of? (v : VersionBound) : Option ModuleLayout :=
  if v = ⟨7, 7⟩ then some ⟨10, 11, 25, 26, 27, 28⟩
  else if v.within 8 15 then some ⟨10, 11, 25, 26, 30, 31⟩
  else if v.within 16 17 then some ⟨20, 21, 35, 36, 40, 41⟩
  else if v.within 18 19 then some ⟨20, 21, 35, 36, 42, 43⟩
  else if v.within 20 24 then some ⟨20, 21, 37, 38, 44, 45⟩
  else none

/-- The words of the module data that matter. -/
structure ModuleData where
  minPc : UInt64
  maxPc : UInt64
  types : UInt64
  etypes : UInt64
  links : UInt64
  linkCount : UInt64
  deriving DecidableEq, Repr

namespace ModuleData

/-- The module data at an offset of a section, if the section holds all the words. -/
def read? (data : Bytes) (layout : ModuleLayout) (pointerWidth : UInt32) (offset : UInt64) :
    Option ModuleData := do
  let word := fun index : Nat =>
    data.read? (offset + UInt64.ofNat index * pointerWidth.toUInt64) pointerWidth.toNat
  pure
    { minPc := ← word layout.minPc
      maxPc := ← word layout.maxPc
      types := ← word layout.types
      etypes := ← word layout.etypes
      links := ← word layout.links
      linkCount := ← word layout.linkCount }

/-- The bounds of the text are those of the function table. -/
def agrees (d : ModuleData) (first : FunctionEntry) (t : FunctionTable) : Bool :=
  d.minPc == first.fileEntry && d.maxPc == t.maxPcFile

/-- Where the type section lies in the running program. Its end may lie just behind what is mapped,
so that its last byte is located instead. -/
def typeBounds? (d : ModuleData) (m : Memory) : Option (UInt64 × UInt64) :=
  if d.etypes ≤ d.types then none
  else
    let low := m.toRuntime d.types
    let high := m.toRuntime (d.etypes - 1) + 1
    if high ≤ low then none else some (low, high)

end ModuleData

namespace TypeGraph

/-- The graph after `count` type links from the one at `index` on. A link that cannot be read is
passed over. -/
def followLinks (s : TypeSection) (m : Memory) (links : UInt64) :
    (count : Nat) → (index : UInt64) → TypeGraph → Logged TypeGraph
  | 0, _, g => pure g
  | count + 1, index, g =>
    match m.readUnsigned (links + 4 * index) 4 with
    | .error e => do
      Logged.event (.typeLinkUnreadable index e)
      followLinks s m links count (index + 1) g
    | .ok offset => do
      let g ← s.visit g [offset]
      followLinks s m links count (index + 1) g

/-- The resolved graph of a type section, unless no type link leads to a type. -/
def ofSection (s : TypeSection) (m : Memory) (offset links linkCount : UInt64) :
    Logged (Option TypeGraph) := do
  let g ← followLinks s m links linkCount.toNat 0 .empty
  if g.isEmpty then
    Logged.event (.moduleWithoutTypes offset)
    pure none
  else
    Logged.event (.typesParsed g.size s.low s.high)
    pure (some g.resolved)

/-- The type graph that the module data at an offset of a section describes, if it is the module
data of the function table. -/
def ofModuleAt (t : FunctionTable) (m : Memory) (data : Bytes) (offset : UInt64) :
    Logged (Option TypeGraph) :=
  match ModuleLayout.of? t.version, t.functions[0]? with
  | some layout, some first =>
    match ModuleData.read? data layout t.pointerWidth offset with
    | none => pure none
    | some d =>
      if d.agrees first t then
        match d.typeBounds? m with
        | none => pure none
        | some (low, high) =>
          match m.readBytes low (high - low) with
          | .error e => ⟨none, [.typeSectionUnreadable e]⟩
          | .ok bytes =>
            ofSection ⟨low, high, bytes, t.version, t.pointerWidth⟩ m offset
              (m.toRuntime d.links) d.linkCount
      else ⟨none, [.pcBoundsDiffer d.minPc d.maxPc]⟩
  | _, _ => pure none

/-- Sections that hold the module data, the one to be searched first. -/
def moduleSections : List Text := [utf8 ".noptrdata", utf8 "__noptrdata", utf8 ".data"]

/-- The offsets, whole numbers of pointers, at which a section holds a pointer to an address. -/
def pointersTo (data : Bytes) (pointerWidth : UInt32) (address : UInt64) : List Nat :=
  let width := pointerWidth.toNat
  let pattern := littleEndianBytes width address.toNat
  ((List.range (data.size / width)).map (· * width)).filter fun offset =>
    (data.slice offset width).toList == pattern

/-- The first type graph that module data at one of the offsets describes. -/
def firstModule (t : FunctionTable) (m : Memory) (s : Section) :
    List Nat → Logged (Option TypeGraph)
  | [] => pure none
  | offset :: rest => do
    Logged.event (.moduleCandidate s.name offset)
    match ← ofModuleAt t m s.data (UInt64.ofNat offset) with
    | some g => pure (some g)
    | none => firstModule t m s rest

/-- The type graph of a binary whose function table lies at an address. Only the first section that
is there is searched. -/
def ofImage (t : FunctionTable) (m : Memory) (image : Image) (tableAddress : UInt64) :
    Logged (Option TypeGraph) :=
  match ModuleLayout.of? t.version with
  | none => ⟨none, [.layoutUnknown t.version]⟩
  | some _ => do
    let found ←
      match moduleSections.findSome? image.section? with
      | none => pure none
      | some s => firstModule t m s (pointersTo s.data t.pointerWidth tableAddress)
    if found.isNone then Logged.event .moduleNotFound
    pure found

end TypeGraph

end GoInspect
