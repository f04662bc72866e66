import GoInspect.Architecture
import GoInspect.FileTree
import GoInspect.Image

/-!
# ELF files

An ELF file names its sections in a table of section headers. The table's place, the size of its
entries and all positions in it come from the file itself, so each is checked against the size of
the file before it is used. Parsing keeps a record of the stretches of the file that it looks at.
The memory of a file that is not running is made of its allocated sections at the addresses they are
stored for.
-/

namespace GoInspect

structure ElfSection where
  name : Text
  /-- Where in the file the contents are. -/
  offset : UInt64
  /-- The address the section is loaded at. -/
  address : UInt64
  /-- Bytes in memory. -/
  size : UInt64
  /-- The section occupies memory. -/
  isAllocated : Bool
  /-- The section has no contents in the file, and zeros in memory. -/
  isZero : Bool
  data : Bytes
  deriving DecidableEq, Repr

def ElfSection.contains (s : ElfSection) (address : UInt64) : Bool :=
  s.address ≤ address && address - s.address < s.size

/-- The part of the section from an address on, at most `count` bytes of it. -/
def ElfSection.bytesFrom (s : ElfSection) (address : UInt64) (count : Nat) : Bytes :=
  let offset := (address - s.address).toNat
  let count := min count (s.size.toNat - offset)
  if s.isZero then Array.replicate count 0 else s.data.slice offset count

structure ElfFile where
  /-- The path it was opened by. -/
  path : Text
  machine : UInt16
  sections : List ElfSection

namespace ElfFile

/-- The place of a number in a record. -/
structure Slot where
  offset : UInt64
  width : Nat

/-- Where the headers of a class of files hold what. -/
structure Layout where
  headerSize : UInt64
  /-- Where the table of section headers begins. -/
  tableStart : Slot
  /-- Bytes from one section header to the next. -/
  entrySize : Slot
  count : Slot
  /-- The section that holds the names. -/
  namesIndex : Slot
  sectionHeaderSize : UInt64
  flags : Slot
  address : Slot
  /-- Where the contents of a section begin. -/
  contents : Slot
  /-- Bytes in a section. -/
  size : Slot

/-- Files whose addresses are 64 bits wide. -/
def wide : Layout :=
  { headerSize := 64, tableStart := ⟨40, 8⟩, entrySize := ⟨58, 2⟩, count := ⟨60, 2⟩,
    namesIndex := ⟨62, 2⟩, sectionHeaderSize := 64, flags := ⟨8, 8⟩, address := ⟨16, 8⟩,
    contents := ⟨24, 8⟩, size := ⟨32, 8⟩ }

/-- Files whose addresses are 32 bits wide. -/
def narrow : Layout :=
  { headerSize := 52, tableStart := ⟨32, 4⟩, entrySize := ⟨46, 2⟩, count := ⟨48, 2⟩,
    namesIndex := ⟨50, 2⟩, sectionHeaderSize := 40, flags := ⟨8, 4⟩, address := ⟨12, 4⟩,
    contents := ⟨16, 4⟩, size := ⟨20, 4⟩ }

def machineSlot : Slot := ⟨18, 2⟩

def nameSlot : Slot := ⟨0, 4⟩

def typeSlot : Slot := ⟨4, 4⟩

def magic : Bytes := #[0x7F, 0x45, 0x4C, 0x46]

/-- Bytes that say how the rest of the file is to be read. -/
def identSize : Nat := 16

/-- The layout of a file by its class. Classes that are unknown are read as narrow. -/
def layoutOf (file : Bytes) : Layout := if file.getD 4 0 = 2 then wide else narrow

def numberAt (record : Bytes) (slot : Slot) : UInt64 :=
  (record.read? slot.offset slot.width).getD 0

structure Header where
  machine : UInt16
  /-- Where the table of section headers begins. -/
  tableStart : UInt64
  /-- Bytes from one section header to the next. -/
  entrySize : UInt64
  count : UInt64
  /-- The section that holds the names. -/
  namesIndex : UInt64
  deriving DecidableEq, Repr

def header (l : Layout) (record : Bytes) : Header :=
  { machine := (numberAt record machineSlot).toUInt16
    tableStart := numberAt record l.tableStart
    entrySize := numberAt record l.entrySize
    count := numberAt record l.count
    namesIndex := numberAt record l.namesIndex }

/-- Where a section header begins, if the file is large enough for it. -/
def Header.position? (h : Header) (l : Layout) (fileSize index : UInt64) : Option UInt64 :=
  let start := h.tableStart + index * h.entrySize
  if h.entrySize < l.sectionHeaderSize ∨ fileSize < start + l.sectionHeaderSize then none
  else some start

structure SectionHeader where
  /-- Where the name begins among the names. -/
  name : UInt64
  type : UInt64
  flags : UInt64
  address : UInt64
  /-- Where the contents begin. -/
  contents : UInt64
  size : UInt64
  deriving DecidableEq, Repr

def sectionHeader (l : Layout) (record : Bytes) : SectionHeader :=
  { name := numberAt record nameSlot
    type := numberAt record typeSlot
    flags := numberAt record l.flags
    address := numberAt record l.address
    contents := numberAt record l.contents
    size := numberAt record l.size }

/-- The type of sections without contents. -/
def zeroType : UInt64 := 8

def allocatedFlag : UInt64 := 2

namespace SectionHeader

variable (s : SectionHeader)

def isZero : Bool := s.type == zeroType

def fits (fileSize : UInt64) : Bool := s.contents ≤ fileSize && s.size ≤ fileSize - s.contents

end SectionHeader

/-- What a stretch of the file is looked at for. -/
inductive Part where
  | fileHeader
  | sectionHeader
  /-- A name is searched for its end. -/
  | name
  | contents
  deriving DecidableEq, Repr

/-- A stretch of the file that is looked at. -/
structure Span where
  /-- What it is looked at for. -/
  part : Part
  start : UInt64
  length : UInt64
  deriving DecidableEq, Repr

/-- Parsing a file. The stretches that are looked at are kept, the last one first. -/
abbrev Parsing := ReaderT Bytes (StateT (List Span) Logged)

def fileSize : Parsing UInt64 := return (← read).size.toUInt64

/-- Keeps a stretch that is looked at. -/
def look (part : Part) (start length : UInt64) : Parsing Unit := modify (⟨part, start, length⟩ :: ·)

/-- The bytes of a stretch, whose positions wrap around. What lies outside the file counts as
zero. -/
def stretch (file : Bytes) (start length : UInt64) : Bytes :=
  Array.ofFn fun i : Fin length.toNat => file.getD (start + UInt64.ofNat i).toNat 0

def copy (part : Part) (start length : UInt64) : Parsing Bytes := do
  look part start length
  return stretch (← read) start length

def sectionHeader? (l : Layout) (h : Header) (index : UInt64) : Parsing (Option SectionHeader) := do
  match h.position? l (← fileSize) index with
  | none => return none
  | some start => return some (sectionHeader l (← copy .sectionHeader start l.sectionHeaderSize))

/-- The position of the first zero byte among the `left` bytes from a position on. -/
def zeroIn? (file : Bytes) : (left position : Nat) → Option Nat
  | 0, _ => none
  | left + 1, position =>
    if file.getD position 0 = 0 then some position else zeroIn? file left (position + 1)

/-- The name that begins at a position among the names. One without an end in the file is empty. -/
def nameAt (names : SectionHeader) (position : UInt64) : Parsing Text := do
  let start := names.contents + position
  let size ← fileSize
  if size ≤ start then return []
  match zeroIn? (← read) (size - start).toNat start.toNat with
  | none =>
    look .name start (size - start)
    return []
  | some stop =>
    look .name start (UInt64.ofNat (stop + 1) - start)
    return ((← read).extract start.toNat stop).toList

/-- The contents of a section that has some. -/
def contentsOf (s : SectionHeader) : Parsing Bytes := do
  if s.isZero then return #[]
  look .contents s.contents s.size
  return (← read).slice s.contents.toNat s.size.toNat

def sectionOf (names s : SectionHeader) : Parsing ElfSection := do
  let data ← contentsOf s
  let name ← nameAt names s.name
  return {
    name
    offset := s.contents
    address := s.address
    size := s.size
    isAllocated := s.flags &&& allocatedFlag != 0
    isZero := s.isZero
    data }

/-- The sections from an index on. Those whose contents lie outside the file are left out; a header
outside the file spoils the whole table. -/
def sectionsFrom (l : Layout) (h : Header) (names : SectionHeader) :
    (count index : Nat) → Parsing (Option (List ElfSection))
  | 0, _ => return some []
  | count + 1, index => do
    match ← sectionHeader? l h (UInt64.ofNat index) with
    | none =>
      Logged.event (.sectionHeaderOutside index)
      return none
    | some s =>
      if !s.isZero && !s.fits (← fileSize) then
        Logged.event (.sectionContentsOutside (← nameAt names s.name))
        sectionsFrom l h names count (index + 1)
      else
        let first ← sectionOf names s
        let rest ← sectionsFrom l h names count (index + 1)
        return rest.map (first :: ·)

def ofHeaders (path : Text) (l : Layout) : Parsing (Option ElfFile) := do
  let size ← fileSize
  if size < l.headerSize then return none
  let h := header l (← copy .fileHeader 0 l.headerSize)
  match (← sectionHeader? l h h.namesIndex).filter fun s => s.contents ≤ size with
  | none =>
    Logged.event .sectionNamesMissing
    return none
  | some names =>
    match ← sectionsFrom l h names h.count.toNat 0 with
    | none => return none
    | some sections =>
      Logged.event (.sectionsParsed sections.length h.machine.toNat)
      return some ⟨path, h.machine, sections⟩

/-- The file by its headers, with the stretches of it that are looked at. -/
def parse (path : Text) (file : Bytes) : Logged (Option ElfFile × List Span) :=
  ((ofHeaders path (layoutOf file)).run file).run []

def ofBytes (path : Text) (file : Bytes) : Logged (Option ElfFile) :=
  if file.size < identSize ∨ file.slice 0 4 ≠ magic then ⟨none, [.notElf path]⟩
  else do
    Logged.event (.parsingElf path)
    let (parsed, _) ← parse path file
    pure parsed

/-- The file at a path, if it can be read and is well-formed. -/
def «open» (t : FileTree) (path : Text) : Logged (Option ElfFile) := do
  let handle ← FileHandle.open t path
  if handle.isOpen then
    match handle.map? none with
    | none => ⟨none, [.mapFailed path]⟩
    | some file => ofBytes path file
  else pure none

variable (e : ElfFile)

def architecture? : Option Architecture := Architecture.ofMachine? e.machine

def toImage : Image := ⟨.elf, e.sections.map fun s => ⟨s.name, s.address, s.data⟩⟩

/-- The first section that occupies memory at an address. -/
def sectionAt? (address : UInt64) : Option ElfSection :=
  e.sections.find? fun s => s.isAllocated && s.contains address

/-- The `left` bytes from an address on, put together section by section. -/
def gather? (address : UInt64) (left : Nat) : Option Bytes :=
  if _h : left = 0 then some #[]
  else
    match (e.sectionAt? address).map (·.bytesFrom address left) with
    | none => none
    | some found =>
      if _h' : found.size = 0 then none
      else (gather? (address + found.size.toUInt64) (left - found.size)).map (found ++ ·)
termination_by left
decreasing_by omega

def readBytes (address length : UInt64) : Except ReadError Bytes :=
  if address + length < address then .error ⟨.outOfRange, address, length⟩
  else
    match e.gather? address length.toNat with
    | some found => .ok found
    | none =>
      .error ⟨if (e.sectionAt? address).isSome then .truncated else .unmapped, address, length⟩

/-- The text at an address up to a zero byte, the end of the section or the limit. -/
def readCString (address : UInt64) (limit : UInt32) : Except ReadError Text :=
  match e.sectionAt? address with
  | none => .error ⟨.unmapped, address, limit.toUInt64⟩
  | some s => .ok ((s.bytesFrom address limit.toNat).cString limit.toNat)

/-- The memory of the file, which is not moved when it is loaded. -/
def toMemory : Memory where
  readBytes := e.readBytes
  readCString := e.readCString
  toRuntime := id

end ElfFile

end GoInspect
