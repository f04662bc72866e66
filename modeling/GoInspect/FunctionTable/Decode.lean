import GoInspect.FunctionTable
import GoInspect.Log
import GoInspect.Varint

/-!
# Decoding function tables

A table starts with a magic number, the sizes of an instruction and of a pointer, and header words.
Its pairs give the entry of a function and the place of its information, from which its name and its
stack map follow. Three generations of the layout differ in the width of the pairs and in what their
offsets count from. Bytes that do not hold a table are rejected with the reason.
-/

namespace GoInspect

namespace FunctionTable

/-- Bytes that may hold a function table. -/
structure Candidate where
  /-- The bytes, from the start of the table on. -/
  data : Bytes
  /-- The address as the binary stores it. -/
  fileAddress : UInt64
  /-- The address in the running program. -/
  runtimeAddress : UInt64
  deriving Repr

inductive Rejection where
  | tooShort
  | start (pad instructionSize pointerWidth : UInt64)
  | magic (magic : UInt32)
  | misaligned (offset : UInt64) (width : UInt32)
  | count (count : UInt64)
  | pairOutside (index : Nat)
  | infoOutside (index : Nat)
  | endOutside
  deriving DecidableEq, Repr

/-- What a rejection is worth in the log. Bytes too short for a header are not worth a line. -/
def Rejection.events : Rejection → List Event
  | tooShort => []
  | start pad size width => [.tableStartRejected pad size width]
  | magic m => [.tableMagicUnknown m]
  | misaligned offset width => [.pairsMisaligned offset width]
  | count n => [.functionCountTooLarge n]
  | pairOutside i => [.pairOutside i]
  | infoOutside i => [.functionInfoOutside i]
  | endOutside => [.endOfTextOutside]

/-- What the pairs of a table count from. -/
inductive PairEncoding where
  /-- Pointer sized pairs, everything relative to the start of the table. -/
  | oldest
  /-- Pointer sized pairs, places relative to the sub tables. -/
  | middle
  /-- Pairs of 32 bits, entries relative to the start of the text. -/
  | newest
  deriving DecidableEq, Repr

/-- A magic number, the releases that wrote it, their encoding of pairs, the number of header words
and which of them hold the fields. -/
structure Generation where
  /-- The first four bytes. -/
  magic : UInt32
  version : VersionBound
  /-- What the pairs count from. -/
  encoding : PairEncoding
  words : Nat
  deriving Repr

/-- From 1.2 to 1.15. -/
def generation2 : Generation := ⟨0xFFFFFFFB, ⟨2, 15⟩, .oldest, 1⟩

/-- 1.16 and 1.17. -/
def generation16 : Generation := ⟨0xFFFFFFFA, ⟨16, 17⟩, .middle, 7⟩

/-- 1.18 and 1.19. -/
def generation18 : Generation := ⟨0xFFFFFFF0, ⟨18, 19⟩, .newest, 8⟩

/-- From 1.20 on. -/
def generation20 : Generation := ⟨0xFFFFFFF1, ⟨20, 24⟩, .newest, 8⟩

def generations : List Generation := [generation2, generation16, generation18, generation20]

structure Header where
  /-- The first four bytes. -/
  magic : UInt32
  /-- Bytes in the shortest instruction. -/
  instructionSize : UInt32
  pointerWidth : UInt32
  /-- The releases that wrote the magic number. -/
  version : VersionBound
  /-- What the pairs count from. -/
  encoding : PairEncoding
  functionCount : UInt64
  textStart : UInt64
  nameOffset : UInt64
  /-- Where the stack maps start. -/
  pcTableOffset : UInt64
  pairOffset : UInt64
  deriving DecidableEq, Repr

def Header.pairWidth (h : Header) : UInt32 :=
  match h.encoding with
  | .newest => 4
  | _ => h.pointerWidth

/-- What is added to the entry of a pair. -/
def Header.textBias (h : Header) : UInt64 :=
  match h.encoding with
  | .newest => h.textStart
  | _ => 0

/-- The header words, if the bytes hold them all. They follow a start of eight bytes. -/
def headerWords? (data : Bytes) (width : UInt32) (count : Nat) : Option (List UInt64) :=
  (List.range count).mapM fun i =>
    data.read? (8 + UInt64.ofNat i * width.toUInt64) width.toNat

def Generation.header (g : Generation) (instructionSize pointerWidth : UInt32)
    (words : List UInt64) : Header :=
  let word := fun i => words.getD i 0
  { magic := g.magic
    instructionSize
    pointerWidth
    version := g.version
    encoding := g.encoding
    functionCount := word 0
    textStart := if g.encoding = .newest then word 2 else 0
    nameOffset :=
      match g.encoding with
      | .newest => word 3
      | .middle => word 2
      | .oldest => 0
    pcTableOffset :=
      match g.encoding with
      | .newest => word 6
      | .middle => word 5
      | .oldest => 0
    pairOffset :=
      match g.encoding with
      | .newest => word 7
      | .middle => word 6
      | .oldest => 8 + pointerWidth.toUInt64 }

/-- Sizes that a shortest instruction can have. -/
def isInstructionSize (n : UInt64) : Bool := n == 1 || n == 2 || n == 4

/-- The start of every table: four bytes of magic, two zero bytes, the size of an instruction and
the width of a pointer. -/
def plausibleStart (pad instructionSize pointerWidth : UInt64) : Bool :=
  pad == 0 && isInstructionSize instructionSize && (pointerWidth == 4 || pointerWidth == 8)

def readHeader (data : Bytes) : Except Rejection Header :=
  match data.read? 0 4, data.read? 4 2, data.read? 6 1, data.read? 7 1 with
  | some magic, some pad, some size, some width =>
    if plausibleStart pad size width then
      match generations.find? fun g => g.magic.toUInt64 == magic with
      | none => .error (.magic magic.toUInt32)
      | some g =>
        match headerWords? data width.toUInt32 g.words with
        | none => .error .tooShort
        | some words => .ok (g.header size.toUInt32 width.toUInt32 words)
    else .error (.start pad size width)
  | _, _, _, _ => .error .tooShort

/-- The stack map from an offset on: pairs of a folded step of the stack pointer and a step of the
program counter. A zero step of the stack pointer ends the map, except in its first pair; so does
the end of the bytes. -/
def decodeDeltas (data : Bytes) (entry instructionSize : UInt64) (offset : Nat) (pc : UInt64)
    (sp : Int) : List StackDelta :=
  match _h : Varint.read? data offset with
  | none => []
  | some (value, next) =>
    if value = 0 ∧ entry < pc then []
    else
      match _h' : Varint.read? data next with
      | none => []
      | some (step, rest) =>
        let sp := sp + Varint.unfold value
        ⟨pc, sp⟩ ::
          decodeDeltas data entry instructionSize rest (pc + step.toUInt64 * instructionSize) sp
termination_by data.size - offset
decreasing_by
  have := Varint.read?_bounds _h
  have := Varint.read?_bounds _h'
  omega

/-- The stack map of the function at `entry`. Before the first pair the distance counts as -1. -/
def stackMap (data : Bytes) (offset : Nat) (entry : UInt64) (instructionSize : UInt32) :
    List StackDelta :=
  decodeDeltas data entry instructionSize.toUInt64 offset entry (-1)

/-- A function before it is known which unnamed one it is. -/
structure RawFunction where
  /-- The name, where it can be read. -/
  name? : Option Text
  /-- The entry as the binary stores it. -/
  fileEntry : UInt64
  /-- The entry in the running program. -/
  entry : UInt64
  deltas : List StackDelta
  deriving Repr

def maxNameLength : UInt32 := 256

namespace Header

variable (h : Header)

/-- Where the number at a position of the pair table stands. -/
def pairAt (position : UInt64) : UInt64 := h.pairOffset + position * h.pairWidth.toUInt64

/-- Where the information of a function stands, given the second number of its pair. It is made of
32-bit words and addressed as such. -/
def infoAt (place : UInt64) : UInt64 :=
  (match h.encoding with
    | .newest => h.pairOffset + place + 4
    | .middle => h.pairOffset + place + h.pointerWidth.toUInt64
    | .oldest => place + h.pointerWidth.toUInt64) &&& 0xFFFFFFFFFFFFFFFC

def nameAt (base name : UInt64) : UInt64 := base + (h.nameOffset + name)

def stackMapAt (place : UInt64) : UInt64 := h.pcTableOffset + place

def readFunction (c : Candidate) (m : Memory) (index : Nat) : Except Rejection RawFunction :=
  let i := UInt64.ofNat index
  match c.data.read? (h.pairAt (2 * i)) h.pairWidth.toNat,
    c.data.read? (h.pairAt (2 * i + 1)) h.pairWidth.toNat with
  | some start, some place =>
    let info := h.infoAt place
    match c.data.read? info 4, c.data.read? (info + 12) 4 with
    | some name, some map =>
      let fileEntry := h.textBias + start
      let entry := m.toRuntime fileEntry
      .ok
        { name? := (m.readCString (h.nameAt c.runtimeAddress name) maxNameLength).toOption
          fileEntry
          entry
          deltas := stackMap c.data (h.stackMapAt map).toNat entry h.instructionSize }
    | _, _ => .error (.infoOutside index)
  | _, _ => .error (.pairOutside index)

end Header

/-- The name of a function whose own name cannot be read. -/
def unnamed (number : Nat) : Text := utf8 "Unnamed_" ++ Text.decimal number

/-- The functions with their names; those without one are numbered from `number` on. -/
def nameFunctions : (number : Nat) → List RawFunction → List FunctionEntry
  | _, [] => []
  | number, f :: rest =>
    match f.name? with
    | some name => ⟨name, f.fileEntry, f.entry, f.deltas.toArray⟩ :: nameFunctions number rest
    | none =>
      ⟨unnamed number, f.fileEntry, f.entry, f.deltas.toArray⟩ :: nameFunctions (number + 1) rest

/-- Every function takes a pair, and the pair table begins inside the bytes. -/
def Header.plausible (h : Header) (size : Nat) : Bool :=
  h.functionCount != 0 && h.functionCount.toNat ≤ size / h.pairWidth.toNat / 2 &&
    h.pairOffset.toNat ≤ size

/-- The table that the bytes hold, before its version bound is cut down. The number after the last
pair is the end of the text. -/
def decodeWith (c : Candidate) (m : Memory) (h : Header) : Except Rejection FunctionTable :=
  if h.pairOffset % h.pairWidth.toUInt64 ≠ 0 then .error (.misaligned h.pairOffset h.pairWidth)
  else if h.plausible c.data.size then
    match (List.range h.functionCount.toNat).mapM (h.readFunction c m) with
    | .error e => .error e
    | .ok functions =>
      match c.data.read? (h.pairAt (2 * h.functionCount)) h.pairWidth.toNat with
      | none => .error .endOutside
      | some last =>
        let maxPcFile := h.textBias + last
        .ok
          { functions := sorted (nameFunctions 0 functions)
            maxPcFile
            maxPc := m.toRuntime maxPcFile
            version := h.version
            pointerWidth := h.pointerWidth
            minInstructionSize := h.instructionSize }
  else .error (.count h.functionCount)

/-- The table that the bytes hold, its version bound cut down. -/
def decode (c : Candidate) (m : Memory) : Except Rejection FunctionTable :=
  match readHeader c.data with
  | .error e => .error e
  | .ok h => (decodeWith c m h).map narrowed

/-- The table that the bytes hold, with what is worth a line about it. -/
def decodeLogged (c : Candidate) (m : Memory) : Logged (Except Rejection FunctionTable) :=
  match readHeader c.data with
  | .error e => ⟨.error e, e.events⟩
  | .ok h =>
    match decodeWith c m h with
    | .error e => ⟨.error e, e.events⟩
    | .ok t =>
      ⟨.ok t.narrowed,
        [.versionNarrowed t.version t.narrowedVersion,
          .tableParsed t.functions.size c.runtimeAddress h.magic t.narrowedVersion]⟩

@[simp] theorem decodeLogged_value (c : Candidate) (m : Memory) :
    (decodeLogged c m).value = decode c m := by
  unfold decodeLogged decode
  cases readHeader c.data with
  | error => rfl
  | ok h =>
    simp only
    cases decodeWith c m h <;> rfl

end FunctionTable

end GoInspect
