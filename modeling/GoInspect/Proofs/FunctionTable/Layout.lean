import GoInspect.Proofs.FunctionTable.StackMap

/-!
# How function tables are written

A table is written by putting its parts somewhere and telling where they are. `Written` says what
the bytes have to hold for that, for all generations of the layout and without a choice of places:
parts may stand in any order, share bytes, and have anything between them.
-/

namespace GoInspect

namespace FunctionTable

/-- A function before it is written. -/
structure Outline where
  name : Text
  /-- The entry as the binary stores it. -/
  fileEntry : UInt64
  deltas : List DeltaPlan
  deriving DecidableEq, Repr

/-- The function in the table of a program that runs at a distance from its binary. -/
def Outline.entryOf (bias : UInt64) (f : Outline) : FunctionEntry :=
  ⟨f.name, f.fileEntry, f.fileEntry + bias, (placed (f.fileEntry + bias) f.deltas).toArray⟩

/-- A generation of the layout, its sizes, and where the parts of a table are. -/
structure Layout where
  generation : Generation
  /-- Bytes in the shortest instruction. -/
  unit : UInt32
  pointerWidth : UInt32
  /-- What entries count from. -/
  textStart : Nat
  /-- What the places of names count from. -/
  nameOffset : Nat
  /-- What the places of stack maps count from. -/
  pcTableOffset : Nat
  pairOffset : Nat
  deriving Repr

/-- Bytes in a number of a pair, given those in a pointer. -/
def Generation.pairWidth (g : Generation) (pointerWidth : UInt32) : Nat :=
  match g.encoding with
  | .newest => 4
  | _ => pointerWidth.toNat

namespace Layout

variable (l : Layout)

def pairWidth : Nat := l.generation.pairWidth l.pointerWidth

/-- What the places of function records count from. -/
def infoOffset : Nat :=
  match l.generation.encoding with
  | .oldest => 0
  | _ => l.pairOffset

/-- The header words of a number of functions. The words that nobody reads are free. -/
def words (count : Nat) (free : Nat → Nat) : List Nat :=
  match l.generation.encoding with
  | .oldest => [count]
  | .middle => [count, free 1, l.nameOffset, free 3, free 4, l.pcTableOffset, l.pairOffset]
  | .newest =>
    [count, free 1, l.textStart, l.nameOffset, free 4, free 5, l.pcTableOffset, l.pairOffset]

/-- The header: four bytes of magic, two zero bytes, the two sizes, and the words. -/
def headerBytes (count : Nat) (free : Nat → Nat) : List UInt8 :=
  littleEndianBytes 4 l.generation.magic.toNat ++ ([0, 0] ++ ([l.unit.toUInt8] ++
    ([l.pointerWidth.toUInt8] ++
      (l.words count free).flatMap (littleEndianBytes l.pointerWidth.toNat))))

/-- A layout that programs have. The older a generation is, the more of it is fixed. -/
structure Proper : Prop where
  generation : l.generation ∈ generations
  unit : l.unit = 1 ∨ l.unit = 2 ∨ l.unit = 4
  width : l.pointerWidth = 4 ∨ l.pointerWidth = 8
  text : l.generation.encoding ≠ .newest → l.textStart = 0
  oldest : l.generation.encoding = .oldest →
    l.nameOffset = 0 ∧ l.pcTableOffset = 0 ∧ l.pairOffset = 8 + l.pointerWidth.toNat
  aligned : l.pairWidth ∣ l.pairOffset

variable {l}

theorem Proper.length_words (h : l.Proper) (count : Nat) (free : Nat → Nat) :
    (l.words count free).length = l.generation.words := by
  have known := h.generation
  rw [words]
  generalize l.generation = g at known
  simp only [generations, List.mem_cons, List.not_mem_nil, or_false] at known
  rcases known with rfl | rfl | rfl | rfl <;> rfl

theorem Proper.pairWidth_cases (h : l.Proper) : l.pairWidth = 4 ∨ l.pairWidth = 8 := by
  have width : l.pointerWidth.toNat = 4 ∨ l.pointerWidth.toNat = 8 := by
    rcases h.width with width | width <;> rw [width]
    · exact Or.inl rfl
    · exact Or.inr rfl
  rw [pairWidth, Generation.pairWidth]
  cases l.generation.encoding with
  | newest => exact Or.inl rfl
  | oldest => exact width
  | middle => exact width

theorem Proper.pairWidth_pos (h : l.Proper) : 0 < l.pairWidth := by
  rcases h.pairWidth_cases with width | width <;> rw [width] <;> decide

end Layout

/-- The numbers that stand for a function in a table. -/
structure Places where
  /-- The entry, counted from the start of the text. -/
  start : Nat
  /-- Where the record of the function is. -/
  info : Nat
  /-- Where the name is. -/
  name : Nat
  /-- Where the stack map is. -/
  map : Nat
  /-- The step of the program counter after the last pair of the stack map, in units. -/
  last : Nat

/-- A function is written at an index of the pairs: its pair leads to its record, which is aligned
and begins with the entry, and the record leads to the name and to the stack map. No field is too
narrow for its number, and no program counter of the running program wraps around. -/
structure WrittenFunction (l : Layout) (data : Bytes) (bias : UInt64) (index : Nat) (f : Outline)
    (places : Places) : Prop where
  entry : UInt64.ofNat l.textStart + UInt64.ofNat places.start = f.fileEntry
  startFits : places.start < 256 ^ l.pairWidth
  infoFits : places.info < 256 ^ l.pairWidth
  pair : data.Holds (l.pairOffset + 2 * index * l.pairWidth)
    (littleEndianBytes l.pairWidth places.start ++ littleEndianBytes l.pairWidth places.info)
  aligned : 4 ∣ l.infoOffset + places.info
  nameFits : places.name < 256 ^ 4
  mapFits : places.map < 256 ^ 4
  nameField : data.Holds (l.infoOffset + places.info + l.pairWidth)
    (littleEndianBytes 4 places.name)
  mapField : data.Holds (l.infoOffset + places.info + l.pairWidth + 12)
    (littleEndianBytes 4 places.map)
  name : data.Holds (l.nameOffset + places.name) (f.name ++ [0])
  zeroFree : 0 ∉ f.name
  short : f.name.length ≤ maxNameLength.toNat
  map : data.Holds (l.pcTableOffset + places.map) (mapBytes l.unit.toNat places.last (-1) f.deltas)
  deltas : MapFits l.unit.toNat f.deltas
  moves : 0 < places.last
  lastFits : places.last < 2 ^ 32
  unwrapped : (f.fileEntry + bias).toNat + reach l.unit.toNat places.last 0 f.deltas < 2 ^ 64

/-- The bytes hold a table of functions, which are not sorted in any way, and the end of the
text. -/
structure Written (l : Layout) (data : Bytes) (bias : UInt64) (functions : List Outline)
    (maxPcFile : UInt64) : Prop where
  proper : l.Proper
  nonempty : functions ≠ []
  header : ∃ free, (∀ w ∈ l.words functions.length free, w < 256 ^ l.pointerWidth.toNat) ∧
    data.Holds 0 (l.headerBytes functions.length free)
  written : ∀ (i : Nat) f, functions[i]? = some f → ∃ places, WrittenFunction l data bias i f places
  ending : ∃ last, UInt64.ofNat l.textStart + UInt64.ofNat last = maxPcFile ∧
    last < 256 ^ l.pairWidth ∧ data.Holds (l.pairOffset + 2 * functions.length * l.pairWidth)
      (littleEndianBytes l.pairWidth last)
  small : data.size < 2 ^ 64

end FunctionTable

end GoInspect
