import GoInspect.Proofs.FunctionTable.Lookup
import GoInspect.Proofs.FunctionTable.Serialize
import GoInspect.Proofs.Memory
import GoInspect.Proofs.Traversal

/-!
# Function tables are read as they were written
-/

namespace GoInspect

namespace FunctionTable

namespace Layout

variable {l : Layout}

/-- The header of a table with a number of functions. -/
def header (l : Layout) (count : Nat) : Header where
  magic := l.generation.magic
  instructionSize := l.unit
  pointerWidth := l.pointerWidth
  version := l.generation.version
  encoding := l.generation.encoding
  functionCount := UInt64.ofNat count
  textStart := UInt64.ofNat l.textStart
  nameOffset := UInt64.ofNat l.nameOffset
  pcTableOffset := UInt64.ofNat l.pcTableOffset
  pairOffset := UInt64.ofNat l.pairOffset

theorem Proper.find?_magic (h : l.Proper) :
    generations.find? (fun g => g.magic.toUInt64 == UInt64.ofNat l.generation.magic.toNat) =
      some l.generation := by
  have known := h.generation
  generalize l.generation = g at known
  simp only [generations, List.mem_cons, List.not_mem_nil, or_false] at known
  rcases known with rfl | rfl | rfl | rfl <;> rfl

/-- The words of a generation make up its header. -/
theorem Proper.header_words (h : l.Proper) (count : Nat) (free : Nat → Nat) :
    l.generation.header l.unit l.pointerWidth ((l.words count free).map UInt64.ofNat) =
      l.header count := by
  obtain ⟨known, _, _, text, oldest, _⟩ := h
  obtain ⟨g, unit, width, textStart, nameOffset, pcTableOffset, pairOffset⟩ := l
  simp only [generations, List.mem_cons, List.not_mem_nil, or_false] at known
  dsimp only at text oldest
  obtain rfl | rfl | rfl | rfl := known
  · obtain rfl := text (by decide)
    obtain ⟨rfl, rfl, rfl⟩ := oldest rfl
    have place : 8 + width.toUInt64 = UInt64.ofNat (8 + width.toNat) := by
      rw [UInt64.ofNat_add, ← UInt32.toNat_toUInt64, UInt64.ofNat_toNat]
      rfl
    simp only [Generation.header, words, header, generation2, place]
    rfl
  · obtain rfl := text (by decide)
    rfl
  · rfl
  · rfl

end Layout

variable {l : Layout} {data : Bytes}

theorem ofNat_toUInt64 (width : UInt32) : UInt64.ofNat width.toNat = width.toUInt64 := by
  rw [← UInt32.toNat_toUInt64, UInt64.ofNat_toNat]

theorem headerWords?_written {words : List Nat} {width : UInt32}
    (h : data.Holds 8 (words.flatMap (littleEndianBytes width.toNat)))
    (fits : ∀ w ∈ words, w < 256 ^ width.toNat) (positive : 0 < width.toNat)
    (small : data.size < 2 ^ 64) :
    headerWords? data width words.length = some (words.map UInt64.ofNat) := by
  have word : ∀ i ∈ List.range words.length,
      data.read? (8 + UInt64.ofNat i * width.toUInt64) width.toNat =
        pure (UInt64.ofNat (words.getD i 0)) := by
    intro i mem
    have inside := List.mem_range.mp mem
    have place : 8 + UInt64.ofNat i * width.toUInt64 = UInt64.ofNat (8 + i * width.toNat) := by
      rw [UInt64.ofNat_add, UInt64.ofNat_mul, ofNat_toUInt64]
      rfl
    have piece := h.piece (length_littleEndianBytes _) (List.getElem?_eq_getElem inside)
    rw [place, List.getD_eq_getElem?_getD, List.getElem?_eq_getElem inside]
    exact piece.read? positive (fits _ (List.getElem_mem inside)) small
  rw [headerWords?, mapM_eq_pure word]
  refine congrArg some (List.ext_getElem (by simp) fun i below _ => ?_)
  simp only [List.length_map, List.length_range] at below
  simp [below]

theorem Layout.Proper.plausibleStart (proper : l.Proper) :
    plausibleStart 0 l.unit.toUInt64 l.pointerWidth.toUInt64 = true := by
  rcases proper.unit with unit | unit | unit <;> rcases proper.width with width | width <;>
    rw [unit, width] <;> rfl

/-- A size in one byte. -/
theorem read?_size {place : Nat} {size : UInt32} (h : data.Holds place [size.toUInt8])
    (fits : size.toNat < 256) (small : data.size < 2 ^ 64) :
    data.read? (UInt64.ofNat place) 1 = some size.toUInt64 := by
  have byte : data.Holds place (littleEndianBytes 1 size.toNat) := h
  rw [byte.read? (by decide) fits small, ofNat_toUInt64]

theorem readHeader_written {count : Nat} {free : Nat → Nat} (proper : l.Proper)
    (fits : ∀ w ∈ l.words count free, w < 256 ^ l.pointerWidth.toNat)
    (h : data.Holds 0 (l.headerBytes count free)) (small : data.size < 2 ^ 64) :
    readHeader data = .ok (l.header count) := by
  obtain ⟨magic, rest⟩ := h.append
  obtain ⟨pad, rest⟩ := rest.append
  obtain ⟨unit, rest⟩ := rest.append
  obtain ⟨width, words⟩ := rest.append
  have magic' : data.read? 0 4 = some (UInt64.ofNat l.generation.magic.toNat) :=
    magic.read? (by decide) l.generation.magic.toNat_lt small
  have zeros : data.Holds 4 (littleEndianBytes 2 0) := pad
  have pad' : data.read? 4 2 = some 0 := zeros.read? (by decide) (by decide) small
  have unit' : data.read? 6 1 = some l.unit.toUInt64 :=
    read?_size unit (by rcases proper.unit with unit | unit | unit <;> rw [unit] <;> decide) small
  have width' : data.read? 7 1 = some l.pointerWidth.toUInt64 :=
    read?_size width (by rcases proper.width with width | width <;> rw [width] <;> decide) small
  have positive : 0 < l.pointerWidth.toNat := by
    rcases proper.width with width | width <;> rw [width] <;> decide
  have words' : headerWords? data l.pointerWidth l.generation.words =
      some ((l.words count free).map UInt64.ofNat) := by
    rw [← proper.length_words count free]
    exact headerWords?_written words fits positive small
  rw [readHeader]
  simp only [magic', pad', unit', width', proper.plausibleStart, if_true, proper.find?_magic,
    UInt32.toUInt32_toUInt64, words', proper.header_words]

namespace Layout

@[simp] theorem encoding_header (l : Layout) (count : Nat) :
    (l.header count).encoding = l.generation.encoding := rfl

theorem pairWidth_header (l : Layout) (count : Nat) :
    (l.header count).pairWidth.toNat = l.pairWidth := by
  rw [Header.pairWidth, pairWidth, Generation.pairWidth, encoding_header]
  cases l.generation.encoding <;> rfl

theorem header_pairAt (l : Layout) (count position : Nat) :
    (l.header count).pairAt (UInt64.ofNat position) =
      UInt64.ofNat (l.pairOffset + position * l.pairWidth) := by
  rw [Header.pairAt, UInt64.ofNat_add, UInt64.ofNat_mul, ← l.pairWidth_header count, ofNat_toUInt64]
  rfl

theorem Proper.textBias_add (h : l.Proper) (count start : Nat) :
    (l.header count).textBias + UInt64.ofNat start =
      UInt64.ofNat l.textStart + UInt64.ofNat start := by
  have text := h.text
  rw [Header.textBias, encoding_header]
  cases encoding : l.generation.encoding with
  | newest => rfl
  | oldest => rw [text (by rw [encoding]; decide)]; rfl
  | middle => rw [text (by rw [encoding]; decide)]; rfl

end Layout

/-- Places of records are whole numbers of 32-bit words, so that nothing is cut off. -/
theorem and_wordMask {place : Nat} (aligned : 4 ∣ place) :
    UInt64.ofNat place &&& 0xFFFFFFFFFFFFFFFC = UInt64.ofNat place := by
  have low : (UInt64.ofNat place).toNat % 2 ^ 2 = 0 := by
    rw [UInt64.toNat_ofNat']
    omega
  apply UInt64.toNat_inj.mp
  rw [UInt64.toNat_and]
  apply Nat.eq_of_testBit_eq
  intro i
  rw [Nat.testBit_and]
  by_cases high : i < 64
  · have mask : ∀ i < 64, (0xFFFFFFFFFFFFFFFC : Nat).testBit i = decide (2 ≤ i) := by decide
    have bits := Nat.testBit_mod_two_pow (UInt64.ofNat place).toNat 2 i
    rw [low, Nat.zero_testBit] at bits
    rw [show (0xFFFFFFFFFFFFFFFC : UInt64).toNat = 0xFFFFFFFFFFFFFFFC from rfl, mask i high]
    by_cases above : 2 ≤ i
    · rw [decide_eq_true above, Bool.and_true]
    · rw [decide_eq_true (Nat.not_le.mp above), Bool.true_and] at bits
      rw [← bits, Bool.false_and]
  · have none : (UInt64.ofNat place).toNat.testBit i = false :=
      Nat.testBit_lt_two_pow (Nat.lt_of_lt_of_le (UInt64.toNat_lt _)
        (Nat.pow_le_pow_right (by decide) (Nat.not_lt.mp high)))
    rw [none, Bool.false_and]

/-- The places of a name and of a stack map stand behind the entry in the record. -/
theorem Layout.Proper.header_infoAt (h : l.Proper) (count : Nat) {place : Nat}
    (aligned : 4 ∣ l.infoOffset + place) :
    (l.header count).infoAt (UInt64.ofNat place) =
      UInt64.ofNat (l.infoOffset + place + l.pairWidth) := by
  have width : 4 ∣ l.pairWidth := by
    obtain width | width := h.pairWidth_cases
    · exact width ▸ Nat.dvd_refl 4
    · exact width ▸ (by decide : 4 ∣ 8)
  rw [← and_wordMask (Nat.dvd_add aligned width)]
  refine congrArg (· &&& _) ?_
  have pointer := ofNat_toUInt64 l.pointerWidth
  rw [infoOffset, pairWidth, Generation.pairWidth, encoding_header]
  cases l.generation.encoding with
  | newest =>
      rw [UInt64.ofNat_add, UInt64.ofNat_add]
      rfl
  | middle =>
      rw [UInt64.ofNat_add, UInt64.ofNat_add, pointer]
      rfl
  | oldest =>
      rw [UInt64.ofNat_add, Nat.zero_add, pointer]
      rfl

section Functions

variable {bias : UInt64} {m : Memory} {c : Candidate}

/-- The bytes of the table are also mapped where the table lies in the running program. -/
def Mapped (m : Memory) (c : Candidate) : Prop :=
  ∀ place < c.data.size, m.readCString (c.runtimeAddress + UInt64.ofNat place) maxNameLength =
    .ok (Bytes.cString (c.data.extract place) maxNameLength.toNat)

/-- The function of a pair before it has its name for sure. -/
def Outline.rawOf (bias : UInt64) (f : Outline) : RawFunction :=
  ⟨some f.name, f.fileEntry, f.fileEntry + bias, placed (f.fileEntry + bias) f.deltas⟩

namespace WrittenFunction

variable {i : Nat} {f : Outline} {places : Places}

theorem read?_start (h : WrittenFunction l c.data bias i f places) (proper : l.Proper)
    (small : c.data.size < 2 ^ 64) (count : Nat) :
    c.data.read? ((l.header count).pairAt (2 * UInt64.ofNat i)) (l.header count).pairWidth.toNat =
      some (UInt64.ofNat places.start) := by
  have position : (2 : UInt64) * UInt64.ofNat i = UInt64.ofNat (2 * i) :=
    (UInt64.ofNat_mul 2 i).symm
  obtain ⟨first, _⟩ := h.pair.append
  rw [position, l.header_pairAt, l.pairWidth_header]
  exact first.read? proper.pairWidth_pos h.startFits small

theorem read?_info (h : WrittenFunction l c.data bias i f places) (proper : l.Proper)
    (small : c.data.size < 2 ^ 64) (count : Nat) :
    c.data.read? ((l.header count).pairAt (2 * UInt64.ofNat i + 1))
      (l.header count).pairWidth.toNat = some (UInt64.ofNat places.info) := by
  have position : (2 : UInt64) * UInt64.ofNat i + 1 = UInt64.ofNat (2 * i + 1) := by
    rw [UInt64.ofNat_add, UInt64.ofNat_mul]
    rfl
  obtain ⟨_, second⟩ := h.pair.append
  rw [length_littleEndianBytes] at second
  rw [position, l.header_pairAt, l.pairWidth_header, Nat.succ_mul, ← Nat.add_assoc]
  exact second.read? proper.pairWidth_pos h.infoFits small

theorem read?_name (h : WrittenFunction l c.data bias i f places) (proper : l.Proper)
    (small : c.data.size < 2 ^ 64) (count : Nat) :
    c.data.read? ((l.header count).infoAt (UInt64.ofNat places.info)) 4 =
      some (UInt64.ofNat places.name) := by
  rw [proper.header_infoAt count h.aligned]
  exact h.nameField.read? (by decide) h.nameFits small

theorem read?_map (h : WrittenFunction l c.data bias i f places) (proper : l.Proper)
    (small : c.data.size < 2 ^ 64) (count : Nat) :
    c.data.read? ((l.header count).infoAt (UInt64.ofNat places.info) + 12) 4 =
      some (UInt64.ofNat places.map) := by
  have field := h.mapField.read? (by decide) h.mapFits small
  rw [UInt64.ofNat_add] at field
  rw [proper.header_infoAt count h.aligned]
  exact field

/-- The name is read from memory, at the place where the table says that it stands. -/
theorem readCString_name (h : WrittenFunction l c.data bias i f places) (mapped : Mapped m c)
    (count : Nat) :
    m.readCString ((l.header count).nameAt c.runtimeAddress (UInt64.ofNat places.name))
      maxNameLength = .ok f.name := by
  have inside := h.name.le_size (List.append_ne_nil_of_right_ne_nil _ (List.cons_ne_nil 0 []))
  rw [List.length_append, List.length_singleton] at inside
  have read := mapped (l.nameOffset + places.name) (by omega)
  rw [h.name.cString h.zeroFree h.short, UInt64.ofNat_add] at read
  exact read

/-- The stack map is read from the bytes, at the place where the table says that it stands. -/
theorem stackMap_read (h : WrittenFunction l c.data bias i f places) (proper : l.Proper)
    (small : c.data.size < 2 ^ 64) (count : Nat) :
    stackMap c.data ((l.header count).stackMapAt (UInt64.ofNat places.map)).toNat
      (f.fileEntry + bias) l.unit = placed (f.fileEntry + bias) f.deltas := by
  have place : ((l.header count).stackMapAt (UInt64.ofNat places.map)).toNat =
      l.pcTableOffset + places.map := by
    have inside := h.map.le_size (mapBytes_ne_nil _ _ _ _)
    show (UInt64.ofNat l.pcTableOffset + UInt64.ofNat places.map).toNat = _
    rw [← UInt64.ofNat_add]
    exact UInt64.toNat_ofNat_of_lt' (Nat.lt_of_le_of_lt (by omega) small)
  have unit : 0 < l.unit.toNat := by
    rcases proper.unit with unit | unit | unit <;> rw [unit] <;> decide
  rw [place]
  exact stackMap_eq h.deltas h.map (Nat.mul_pos h.moves unit) h.lastFits h.unwrapped

end WrittenFunction

/-- A function is read as it was written. -/
theorem readFunction_written {i count : Nat} {f : Outline} {places : Places} (proper : l.Proper)
    (h : WrittenFunction l c.data bias i f places) (mapped : Mapped m c)
    (moved : ∀ a, m.toRuntime a = a + bias) (small : c.data.size < 2 ^ 64) :
    (l.header count).readFunction c m i = .ok (f.rawOf bias) := by
  have size : (l.header count).instructionSize = l.unit := rfl
  rw [Header.readFunction]
  simp only [h.read?_start proper small, h.read?_info proper small, h.read?_name proper small,
    h.read?_map proper small, h.readCString_name mapped, proper.textBias_add, h.entry, moved, size,
    h.stackMap_read proper small]
  rfl

/-- Functions that all have their names keep them. -/
theorem nameFunctions_rawOf (number : Nat) (functions : List Outline) :
    nameFunctions number (functions.map (Outline.rawOf bias)) =
      functions.map (Outline.entryOf bias) := by
  induction functions with
  | nil => rfl
  | cons f rest ih =>
      rw [List.map_cons, List.map_cons, ← ih]
      rfl

def Layout.table (l : Layout) (bias : UInt64) (functions : List Outline) (maxPcFile : UInt64) :
    FunctionTable where
  functions := sorted (functions.map (Outline.entryOf bias))
  maxPcFile := maxPcFile
  maxPc := maxPcFile + bias
  version := l.generation.version
  pointerWidth := l.pointerWidth
  minInstructionSize := l.unit

/-- A block that is the only region of memory is mapped where the region is, unless addresses wrap
around in it. -/
theorem mapped_map {base fileAddress : UInt64} (room : base.toNat + data.size ≤ 2 ^ 64) :
    Mapped (MappedMemory.map ⟨∅, bias⟩ base data).toMemory ⟨data, fileAddress, base⟩ := by
  intro place inside
  change place < data.size at inside
  have address : (base + UInt64.ofNat place).toNat = base.toNat + place := by
    rw [UInt64.toNat_add, UInt64.toNat_ofNat']
    omega
  have start : base ≤ base + UInt64.ofNat place := by
    rw [UInt64.le_iff_toNat_le, address]
    exact Nat.le_add_right ..
  have offset : (base + UInt64.ofNat place - base).toNat = place := by
    rw [UInt64.toNat_sub_of_le _ _ start, address, Nat.add_sub_cancel_left]
  have region : (MappedMemory.map ⟨∅, bias⟩ base data).region? (base + UInt64.ofNat place) =
      some (base, data) := MappedMemory.region?_map start (by rwa [offset])
  rw [MappedMemory.toMemory]
  dsimp only
  rw [region]
  dsimp only
  rw [offset]

section Written

variable {functions : List Outline} {maxPcFile : UInt64}

/-- The pairs and the end of the text lie inside the bytes. -/
theorem Written.pairs_le (h : Written l data bias functions maxPcFile) :
    l.pairOffset + functions.length * 2 * l.pairWidth + l.pairWidth ≤ data.size := by
  obtain ⟨last, _, _, ending⟩ := h.ending
  have length := length_littleEndianBytes l.pairWidth last
  have positive := h.proper.pairWidth_pos
  have inside := ending.le_size (List.ne_nil_of_length_pos (by omega))
  rwa [length, Nat.mul_comm 2] at inside

theorem Written.length_le (h : Written l data bias functions maxPcFile) :
    functions.length ≤ data.size / l.pairWidth / 2 := by
  have fit := h.pairs_le
  have positive := Nat.mul_pos h.proper.pairWidth_pos Nat.two_pos
  rw [Nat.div_div_eq_div_mul, Nat.le_div_iff_mul_le positive, Nat.mul_comm l.pairWidth 2,
    ← Nat.mul_assoc]
  omega

theorem Written.toNat_functionCount (h : Written l data bias functions maxPcFile) :
    (l.header functions.length).functionCount.toNat = functions.length := by
  have few := h.length_le.trans ((Nat.div_le_self _ _).trans (Nat.div_le_self _ _))
  exact UInt64.toNat_ofNat_of_lt' (few.trans_lt h.small)

theorem Written.toNat_pairOffset (h : Written l data bias functions maxPcFile) (count : Nat) :
    (l.header count).pairOffset.toNat = l.pairOffset := by
  have fit := h.pairs_le
  have small := h.small
  exact UInt64.toNat_ofNat_of_lt' (Nat.lt_of_le_of_lt (by omega) small)

theorem Written.plausible (h : Written l data bias functions maxPcFile) :
    Header.plausible (l.header functions.length) data.size = true := by
  have fit := h.pairs_le
  have count := h.toNat_functionCount
  have inside : l.pairOffset ≤ data.size := by omega
  unfold Header.plausible
  rw [l.pairWidth_header, count, h.toNat_pairOffset, decide_eq_true h.length_le,
    decide_eq_true inside, Bool.and_true, Bool.and_true, bne_iff_ne]
  intro zero
  rw [zero] at count
  exact h.nonempty (List.eq_nil_of_length_eq_zero count.symm)

theorem Written.pairOffset_mod (h : Written l data bias functions maxPcFile) (count : Nat) :
    (l.header count).pairOffset % (l.header count).pairWidth.toUInt64 = 0 := by
  apply UInt64.toNat_inj.mp
  rw [UInt64.toNat_mod, UInt32.toNat_toUInt64, l.pairWidth_header, h.toNat_pairOffset]
  exact Nat.mod_eq_zero_of_dvd h.proper.aligned

/-- Given the header, the table is read as it was written. -/
theorem decodeWith_written (h : Written l c.data bias functions maxPcFile) (mapped : Mapped m c)
    (moved : ∀ a, m.toRuntime a = a + bias) :
    decodeWith c m (l.header functions.length) = .ok (l.table bias functions maxPcFile) := by
  have positive := h.proper.pairWidth_pos
  have read : (List.range functions.length).mapM
      ((l.header functions.length).readFunction c m) =
        .ok (functions.map (Outline.rawOf bias)) := by
    have each : ∀ i ∈ List.range functions.length,
        (l.header functions.length).readFunction c m i =
          pure ((functions.getD i ⟨[], 0, []⟩).rawOf bias) := by
      intro i mem
      have inside := List.mem_range.mp mem
      obtain ⟨places, written⟩ := h.written i _ (List.getElem?_eq_getElem inside)
      rw [List.getD_eq_getElem?_getD, List.getElem?_eq_getElem inside]
      exact readFunction_written h.proper written mapped moved h.small
    rw [mapM_eq_pure each]
    refine congrArg Except.ok (List.ext_getElem (by simp) fun i below _ => ?_)
    simp only [List.length_map, List.length_range] at below
    simp [below]
  obtain ⟨last, sum, lastFits, ending⟩ := h.ending
  have final : c.data.read? ((l.header functions.length).pairAt (2 * UInt64.ofNat functions.length))
      (l.header functions.length).pairWidth.toNat = some (UInt64.ofNat last) := by
    have position : (2 : UInt64) * UInt64.ofNat functions.length =
        UInt64.ofNat (2 * functions.length) := (UInt64.ofNat_mul 2 _).symm
    rw [position, l.header_pairAt, l.pairWidth_header]
    exact ending.read? positive lastFits h.small
  have count : (l.header functions.length).functionCount = UInt64.ofNat functions.length := rfl
  rw [decodeWith, if_neg (not_not_intro (h.pairOffset_mod functions.length)), if_pos h.plausible,
    h.toNat_functionCount, read, count]
  simp only [final, nameFunctions_rawOf, h.proper.textBias_add, sum, moved]
  rfl

/-- What was written is what is read. -/
theorem decode_table (h : Written l c.data bias functions maxPcFile) (mapped : Mapped m c)
    (moved : ∀ a, m.toRuntime a = a + bias) :
    decode c m = .ok (l.table bias functions maxPcFile).narrowed := by
  obtain ⟨free, fits, header⟩ := h.header
  rw [decode, readHeader_written h.proper fits header h.small]
  show (decodeWith c m (l.header functions.length)).map narrowed = _
  rw [decodeWith_written h mapped moved]
  rfl

/-- Two functions in the wrong order, for pointers of four bytes. -/
def exchanged : Plan where
  generation := generation16
  unit := 4
  pointerWidth := 4
  textStart := 0
  functions := [⟨utf8 "second", 0x2000, [(0, -1), (8, 16)]⟩, ⟨utf8 "first", 0x1000, [(0, 8)]⟩]
  maxPcFile := 0x3000

theorem exchanged_fits : exchanged.Fits 0x100000 where
  generation := List.mem_cons_of_mem _ (List.mem_cons_self ..)
  unit := .inr (.inr rfl)
  width := .inl rfl
  text := fun _ => rfl
  textFits := by decide
  nonempty := List.cons_ne_nil _ _
  functions := by
    intro f mem
    simp only [exchanged, List.mem_cons, List.not_mem_nil, or_false] at mem
    obtain rfl | rfl := mem
    · have follows : Follows 4 (0, -1) (8, 16) :=
        ⟨by decide, by decide, by decide, by decide, by decide⟩
      exact ⟨by decide, by decide,
        ⟨⟨-1, _, rfl, by decide⟩, List.isChain_cons_cons.mpr ⟨follows, List.isChain_singleton _⟩⟩,
        by decide, by decide⟩
    · exact ⟨by decide, by decide, ⟨⟨8, _, rfl, by decide⟩, List.isChain_singleton _⟩, by decide,
        by decide⟩
  ending := by decide
  small := by decide +kernel

/-- A table that was written, and is mapped where the program runs, is read as it was written: all
functions with their names, entries and stack maps and nothing else, in the order of their
entries. -/
theorem decode_written (h : Written l c.data bias functions maxPcFile) (mapped : Mapped m c)
    (moved : ∀ a, m.toRuntime a = a + bias) :
    decode c m = .ok (l.table bias functions maxPcFile).narrowed ∧
      (l.table bias functions maxPcFile).narrowed.functions.toList.Perm
        (functions.map (Outline.entryOf bias)) ∧
      (l.table bias functions maxPcFile).narrowed.functions.toList.Pairwise
        fun a b => a.entry ≤ b.entry :=
  ⟨decode_table h mapped moved, perm_sorted _, pairwise_sorted _⟩

theorem decode_written_exchanged :
    exchanged.Fits 0x100000 ∧
      decode ⟨exchanged.data, 0x500000, 0x600000⟩
        (MappedMemory.map ⟨∅, 0x100000⟩ 0x600000 exchanged.data).toMemory =
          .ok (exchanged.layout.table 0x100000 exchanged.functions 0x3000).narrowed := by
  have room : (0x600000 : UInt64).toNat + exchanged.data.size ≤ 2 ^ 64 := by decide +kernel
  exact ⟨exchanged_fits,
    (decode_written exchanged_fits.written (mapped_map room) fun _ => rfl).1⟩

end Written

end Functions

end FunctionTable

end GoInspect
