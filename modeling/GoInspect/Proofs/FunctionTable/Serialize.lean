import GoInspect.Proofs.FunctionTable.Layout

/-!
# Function tables that fit can be written

A plan is written without gaps: the header, the pairs and the end of the text, the records of the
functions, their names, and their stack maps. Whatever fits into the fields of its generation is
written that way, so `Written` promises nothing that a writer could not keep.
-/

namespace GoInspect

namespace FunctionTable

/-- What a table is to hold. -/
structure Plan where
  generation : Generation
  /-- Bytes in the shortest instruction. -/
  unit : UInt32
  pointerWidth : UInt32
  /-- What entries count from. -/
  textStart : Nat
  functions : List Outline
  /-- The end of the text as the binary stores it. -/
  maxPcFile : UInt64

namespace Plan

variable (p : Plan)

def pairWidth : Nat := p.generation.pairWidth p.pointerWidth

def pairsAt : Nat := 8 + p.generation.words * p.pointerWidth.toNat

def recordsAt : Nat := p.pairsAt + p.functions.length * (2 * p.pairWidth) + p.pairWidth

def namesAt : Nat := p.recordsAt + p.functions.length * (p.pairWidth + 16)

def nameBytes (f : Outline) : List UInt8 := f.name ++ [0]

def mapsAt : Nat := p.namesAt + (p.functions.flatMap nameBytes).length

/-- A stack map. The last pair holds for one unit. -/
def deltaBytes (f : Outline) : List UInt8 := mapBytes p.unit.toNat 1 (-1) f.deltas

/-- A place of the table as the base of other places: the oldest generation counts all of them from
the start of the table. -/
def base (place : Nat) : Nat :=
  match p.generation.encoding with
  | .oldest => 0
  | _ => place

theorem base_le (place : Nat) : p.base place ≤ place := by
  rw [base]
  cases p.generation.encoding with
  | oldest => exact Nat.zero_le place
  | middle => exact Nat.le_refl place
  | newest => exact Nat.le_refl place

def layout : Layout where
  generation := p.generation
  unit := p.unit
  pointerWidth := p.pointerWidth
  textStart := p.textStart
  nameOffset := p.base p.namesAt
  pcTableOffset := p.base p.mapsAt
  pairOffset := p.pairsAt

/-- The numbers of a function, given its index. -/
def places (f : Outline) (index : Nat) : Places where
  start := (f.fileEntry - UInt64.ofNat p.textStart).toNat
  info := p.recordsAt + index * (p.pairWidth + 16) - p.base p.pairsAt
  name := p.namesAt + ((p.functions.take index).flatMap nameBytes).length - p.base p.namesAt
  map := p.mapsAt + ((p.functions.take index).flatMap p.deltaBytes).length - p.base p.mapsAt
  last := 1

def pairBytes (f : Outline × Nat) : List UInt8 :=
  littleEndianBytes p.pairWidth (p.places f.1 f.2).start ++
    littleEndianBytes p.pairWidth (p.places f.1 f.2).info

/-- The record of a function. The words that nobody reads are zero. -/
def recordBytes (f : Outline × Nat) : List UInt8 :=
  littleEndianBytes p.pairWidth (p.places f.1 f.2).start ++
    (littleEndianBytes 4 (p.places f.1 f.2).name ++
      (littleEndianBytes 8 0 ++ littleEndianBytes 4 (p.places f.1 f.2).map))

def endNumber : Nat := (p.maxPcFile - UInt64.ofNat p.textStart).toNat

def bytes : List UInt8 :=
  p.layout.headerBytes p.functions.length (fun _ => 0) ++
    (p.functions.zipIdx.flatMap p.pairBytes ++
      (littleEndianBytes p.pairWidth p.endNumber ++
        (p.functions.zipIdx.flatMap p.recordBytes ++
          (p.functions.flatMap nameBytes ++ p.functions.flatMap p.deltaBytes))))

def data : Bytes := p.bytes.toArray

/-- A function that fits into the fields of a table: its name ends where it seems to end and is not
too long, its stack map can be written, and its program counters do not wrap around. -/
structure FunctionFits (bias : UInt64) (f : Outline) : Prop where
  zeroFree : 0 ∉ f.name
  short : f.name.length ≤ maxNameLength.toNat
  deltas : MapFits p.unit.toNat f.deltas
  start : (f.fileEntry - UInt64.ofNat p.textStart).toNat < 256 ^ p.pairWidth
  unwrapped : (f.fileEntry + bias).toNat + reach p.unit.toNat 1 0 f.deltas < 2 ^ 64

/-- A plan that programs have, and that fits into the fields of a table. -/
structure Fits (bias : UInt64) : Prop where
  generation : p.generation ∈ generations
  unit : p.unit = 1 ∨ p.unit = 2 ∨ p.unit = 4
  width : p.pointerWidth = 4 ∨ p.pointerWidth = 8
  text : p.generation.encoding ≠ .newest → p.textStart = 0
  textFits : p.textStart < 256 ^ p.pointerWidth.toNat
  nonempty : p.functions ≠ []
  functions : ∀ f ∈ p.functions, p.FunctionFits bias f
  ending : p.endNumber < 256 ^ p.pairWidth
  small : p.bytes.length < 2 ^ 32

variable {p} {bias : UInt64}

/-- A place that is written relative to a base is found again. -/
theorem base_add_sub {start place : Nat} (behind : start ≤ place) :
    p.base start + (place - p.base start) = place :=
  Nat.add_sub_of_le ((p.base_le start).trans behind)

theorem pairsAt_le : p.pairsAt ≤ p.recordsAt := by
  rw [recordsAt]
  omega

theorem infoOffset_layout : p.layout.infoOffset = p.base p.pairsAt := by
  unfold Layout.infoOffset base layout
  cases p.generation.encoding <;> rfl

theorem length_pairBytes (f : Outline × Nat) : (p.pairBytes f).length = 2 * p.pairWidth := by
  rw [pairBytes]
  rw [List.length_append, length_littleEndianBytes, length_littleEndianBytes, Nat.two_mul]

theorem length_recordBytes (f : Outline × Nat) :
    (p.recordBytes f).length = p.pairWidth + 16 := by
  simp only [recordBytes, List.length_append, length_littleEndianBytes]

/-- Every header is as long as its words say. -/
theorem length_headerBytes {l : Layout} (proper : l.Proper) (count : Nat) (free : Nat → Nat) :
    (l.headerBytes count free).length = 8 + l.generation.words * l.pointerWidth.toNat := by
  rw [Layout.headerBytes]
  simp only [List.length_append, length_littleEndianBytes, List.length_cons, List.length_nil,
    length_flatMap_even (length_littleEndianBytes _), proper.length_words]
  omega

/-- The sizes of pointers fit together so that pairs stand at whole numbers of their width, and
records at whole numbers of words. -/
theorem Fits.aligned (h : p.Fits bias) : p.pairWidth ∣ p.pairsAt ∧ 4 ∣ p.pairWidth := by
  have known := h.generation
  rw [pairsAt, pairWidth, Generation.pairWidth]
  generalize p.generation = g at known
  simp only [generations, List.mem_cons, List.not_mem_nil, or_false] at known
  rcases known with rfl | rfl | rfl | rfl <;> rcases h.width with width | width <;> rw [width] <;>
    decide

theorem Fits.proper (h : p.Fits bias) : p.layout.Proper where
  generation := h.generation
  unit := h.unit
  width := h.width
  text := h.text
  oldest := by
    intro oldest
    have words : p.generation.words = 1 := by
      have known := h.generation
      change p.generation.encoding = .oldest at oldest
      generalize p.generation = g at known oldest
      simp only [generations, List.mem_cons, List.not_mem_nil, or_false] at known
      obtain rfl | rfl | rfl | rfl := known
      · rfl
      · cases oldest
      · cases oldest
      · cases oldest
    have zero : ∀ place, p.base place = 0 := by
      intro place
      rw [base, show p.generation.encoding = .oldest from oldest]
    refine ⟨zero _, zero _, ?_⟩
    show 8 + p.generation.words * p.pointerWidth.toNat = _
    rw [words, Nat.one_mul]
    rfl
  aligned := h.aligned.1

/-- Where the parts of the table are. -/
theorem Fits.parts (h : p.Fits bias) :
    p.data.Holds 0 (p.layout.headerBytes p.functions.length fun _ => 0) ∧
      p.data.Holds p.pairsAt (p.functions.zipIdx.flatMap p.pairBytes) ∧
      p.data.Holds (p.pairsAt + p.functions.length * (2 * p.pairWidth))
        (littleEndianBytes p.pairWidth p.endNumber) ∧
      p.data.Holds p.recordsAt (p.functions.zipIdx.flatMap p.recordBytes) ∧
      p.data.Holds p.namesAt (p.functions.flatMap nameBytes) ∧
      p.data.Holds p.mapsAt (p.functions.flatMap p.deltaBytes) := by
  have whole : p.data.Holds 0 p.bytes := List.prefix_refl p.bytes
  obtain ⟨header, rest⟩ := whole.append
  rw [Nat.zero_add, length_headerBytes h.proper] at rest
  obtain ⟨pairs, rest⟩ := (show p.data.Holds p.pairsAt (_ ++ _) from rest).append
  rw [length_flatMap_even length_pairBytes, List.length_zipIdx] at rest
  obtain ⟨ending, rest⟩ := rest.append
  rw [length_littleEndianBytes] at rest
  obtain ⟨records, rest⟩ := (show p.data.Holds p.recordsAt (_ ++ _) from rest).append
  rw [length_flatMap_even length_recordBytes, List.length_zipIdx] at rest
  obtain ⟨names, maps⟩ := (show p.data.Holds p.namesAt (_ ++ _) from rest).append
  exact ⟨header, pairs, ending, records, names, maps⟩

theorem Fits.size_lt (h : p.Fits bias) : p.data.size < 2 ^ 32 := by
  rw [data, List.size_toArray]
  exact h.small

/-- Nothing that stands in a table that fits is too far behind for a 32-bit number. -/
theorem Fits.place_lt (h : p.Fits bias) {place : Nat} {bytes : List UInt8}
    (held : p.data.Holds place bytes) (some : bytes ≠ []) : place < 256 ^ 4 := by
  have inside := held.le_size some
  have small := h.size_lt
  omega

theorem Fits.pow_le (h : p.Fits bias) : 256 ^ 4 ≤ 256 ^ p.pairWidth :=
  Nat.pow_le_pow_right (by decide) (by
    obtain width | width := h.proper.pairWidth_cases
    · exact Nat.le_of_eq width.symm
    · exact (by decide : 4 ≤ 8).trans (Nat.le_of_eq width.symm))

/-- Counting from a start and adding it again leads back. -/
theorem add_toNat_sub (start place : UInt64) :
    start + UInt64.ofNat (place - start).toNat = place := by
  rw [UInt64.ofNat_toNat, UInt64.add_comm, UInt64.sub_add_cancel]

theorem Fits.record_aligned (h : p.Fits bias) (i : Nat) :
    4 ∣ p.recordsAt + i * (p.pairWidth + 16) := by
  obtain ⟨pairs, words⟩ := h.aligned
  have rows := Nat.dvd_mul_left_of_dvd (Nat.dvd_mul_left_of_dvd words 2) p.functions.length
  have start : 4 ∣ p.recordsAt := Nat.dvd_add (Nat.dvd_add (Nat.dvd_trans words pairs) rows) words
  exact Nat.dvd_add start (Nat.dvd_mul_left_of_dvd (Nat.dvd_add words (by decide)) i)

/-- Every function of a plan that fits is written. -/
theorem Fits.function (h : p.Fits bias) {i : Nat} {f : Outline} (mem : p.functions[i]? = some f) :
    WrittenFunction p.layout p.data bias i f (p.places f i) := by
  obtain ⟨_, pairs, _, records, names, maps⟩ := h.parts
  have fits := h.functions f (List.mem_of_getElem? mem)
  have numbered : p.functions.zipIdx[i]? = some (f, i) := by
    rw [List.getElem?_zipIdx, mem, Option.map_some, Nat.zero_add]
  have pair := pairs.piece length_pairBytes numbered
  have record := records.piece length_recordBytes numbered
  have name := names.part mem
  have map := maps.part mem
  obtain ⟨start, rest⟩ := record.append
  obtain ⟨nameField, rest⟩ := rest.append
  obtain ⟨_, mapField⟩ := rest.append
  simp only [length_littleEndianBytes] at nameField mapField
  have toRecord : p.layout.infoOffset + (p.places f i).info =
      p.recordsAt + i * (p.pairWidth + 16) := by
    rw [infoOffset_layout]
    exact base_add_sub (pairsAt_le.trans (Nat.le_add_right ..))
  have toName : p.layout.nameOffset + (p.places f i).name =
      p.namesAt + ((p.functions.take i).flatMap nameBytes).length :=
    base_add_sub (Nat.le_add_right ..)
  have toMap : p.layout.pcTableOffset + (p.places f i).map =
      p.mapsAt + ((p.functions.take i).flatMap p.deltaBytes).length :=
    base_add_sub (Nat.le_add_right ..)
  have field : ∀ n, littleEndianBytes 4 n ≠ [] := by
    intro n
    apply List.ne_nil_of_length_pos
    rw [length_littleEndianBytes]
    decide
  have infoFits : (p.places f i).info < 256 ^ 4 := by
    have below := h.place_lt mapField (field _)
    omega
  have nameFits : (p.places f i).name < 256 ^ 4 := by
    have below := h.place_lt name (List.append_ne_nil_of_right_ne_nil _ (List.cons_ne_nil 0 []))
    omega
  have mapFits : (p.places f i).map < 256 ^ 4 := by
    have below := h.place_lt map (mapBytes_ne_nil _ _ _ _)
    omega
  exact {
    entry := add_toNat_sub _ _
    startFits := fits.start
    infoFits := infoFits.trans_le h.pow_le
    pair := by
      rw [Nat.mul_comm 2, Nat.mul_assoc]
      exact pair
    aligned := toRecord ▸ h.record_aligned i
    nameFits := nameFits
    mapFits := mapFits
    nameField := toRecord ▸ nameField
    mapField := toRecord ▸ mapField
    name := toName ▸ name
    zeroFree := fits.zeroFree
    short := fits.short
    map := toMap ▸ map
    deltas := fits.deltas
    moves := Nat.one_pos
    lastFits := by show 1 < 2 ^ 32; decide
    unwrapped := fits.unwrapped }

theorem Fits.mapsAt_le (h : p.Fits bias) : p.mapsAt ≤ p.data.size := by
  have length : p.bytes.length = p.mapsAt + (p.functions.flatMap p.deltaBytes).length := by
    rw [bytes, mapsAt, namesAt, recordsAt]
    simp only [List.length_append, length_headerBytes h.proper,
      length_flatMap_even length_pairBytes, length_flatMap_even length_recordBytes,
      length_littleEndianBytes, List.length_zipIdx]
    show p.pairsAt + _ = _
    omega
  rw [data, List.size_toArray, length]
  exact Nat.le_add_right ..

/-- The words of the header are places of the table, the start of the text and the number of
functions. -/
theorem Fits.header_lt (h : p.Fits bias) :
    ∀ w ∈ p.layout.words p.functions.length fun _ => 0, w < 256 ^ p.pointerWidth.toNat := by
  have wide : 256 ^ 4 ≤ 256 ^ p.pointerWidth.toNat :=
    Nat.pow_le_pow_right (by decide)
      (by rcases h.width with width | width <;> rw [width] <;> decide)
  have inside : ∀ n ≤ p.mapsAt, n < 256 ^ p.pointerWidth.toNat := by
    intro n le
    have below : n < 2 ^ 32 := (le.trans h.mapsAt_le).trans_lt h.size_lt
    exact below.trans_le wide
  have records : p.recordsAt ≤ p.namesAt := Nat.le_add_right ..
  have names : p.namesAt ≤ p.mapsAt := Nat.le_add_right ..
  have pairs : p.pairsAt ≤ p.mapsAt := pairsAt_le.trans (records.trans names)
  have count : p.functions.length ≤ p.mapsAt := by
    have positive := Nat.mul_pos Nat.two_pos h.proper.pairWidth_pos
    have few := Nat.le_mul_of_pos_right p.functions.length positive
    refine le_trans ?_ (records.trans names)
    rw [recordsAt]
    exact few.trans ((Nat.le_add_left ..).trans (Nat.le_add_right ..))
  have zero := inside 0 (Nat.zero_le _)
  have nameOffset := inside _ ((p.base_le _).trans names)
  have mapOffset := inside _ (p.base_le _)
  have encoding : p.layout.generation.encoding = p.generation.encoding := rfl
  rw [Layout.words, encoding]
  cases p.generation.encoding with
  | oldest =>
      simp only [List.forall_mem_singleton]
      exact inside _ count
  | middle =>
      simp only [List.forall_mem_cons]
      exact ⟨inside _ count, zero, nameOffset, zero, zero, mapOffset, inside _ pairs, by simp⟩
  | newest =>
      simp only [List.forall_mem_cons]
      exact ⟨inside _ count, zero, h.textFits, nameOffset, zero, zero, mapOffset, inside _ pairs,
        by simp⟩

/-- Every plan that fits is written by its bytes. -/
theorem Fits.written (h : p.Fits bias) :
    Written p.layout p.data bias p.functions p.maxPcFile where
  proper := h.proper
  nonempty := h.nonempty
  header := ⟨fun _ => 0, h.header_lt, h.parts.1⟩
  written := fun i f mem => ⟨p.places f i, h.function mem⟩
  ending := by
    refine ⟨p.endNumber, add_toNat_sub _ _, h.ending, ?_⟩
    rw [Nat.mul_comm 2, Nat.mul_assoc]
    exact h.parts.2.2.1
  small := h.size_lt.trans (by decide)

end Plan

end FunctionTable

end GoInspect
