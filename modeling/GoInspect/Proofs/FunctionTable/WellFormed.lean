import GoInspect.Proofs.FunctionTable.Relocation

/-!
# What every table that was read keeps

Whatever the bytes are, a table that comes out of them has one function for each pair that its
header counts, in the order of the entries, with the version bound cut down as far as the functions
allow. The functions are first listed in the order of their pairs, where those without a readable
name are numbered, and sorted afterwards.
-/

namespace GoInspect

namespace FunctionTable

section Header

variable {data : Bytes} {h : Header}

theorem plausibleStart_iff (pad size width : UInt64) : plausibleStart pad size width = true ↔
    pad = 0 ∧ (size = 1 ∨ size = 2 ∨ size = 4) ∧ (width = 4 ∨ width = 8) := by
  simp [plausibleStart, isInstructionSize, or_assoc, and_assoc]

/-- The first header word. -/
theorem headerWords?_first {width : UInt32} {count : Nat} {words : List UInt64} (some : 0 < count)
    (read : headerWords? data width count = .some words) :
    data.read? 8 width.toNat = .some (words.getD 0 0) := by
  obtain ⟨count, rfl⟩ := Nat.exists_eq_succ_of_ne_zero (Nat.ne_of_gt some)
  rw [headerWords?, List.range_succ_eq_map, List.mapM_cons] at read
  obtain ⟨first, here, rest⟩ := Option.bind_eq_some_iff.mp read
  obtain ⟨others, _, made⟩ := Option.bind_eq_some_iff.mp rest
  cases made
  simpa using here

/-- What a header says that was read: sizes that machines have, the releases of its magic number,
and the number of functions in its first word. -/
structure Header.Sound (h : Header) (data : Bytes) : Prop where
  width : h.pointerWidth = 4 ∨ h.pointerWidth = 8
  unit : h.instructionSize = 1 ∨ h.instructionSize = 2 ∨ h.instructionSize = 4
  count : data.read? 8 h.pointerWidth.toNat = some h.functionCount
  version : ∃ g ∈ generations, data.read? 0 4 = some g.magic.toUInt64 ∧ h.version = g.version

theorem words_pos {g : Generation} (known : g ∈ generations) : 0 < g.words := by
  simp only [generations, List.mem_cons, List.not_mem_nil, or_false] at known
  obtain rfl | rfl | rfl | rfl := known <;> decide

theorem sound_of_readHeader (read : readHeader data = .ok h) : h.Sound data := by
  rw [readHeader] at read
  split at read
  · next magic pad size width magicRead _ _ _ =>
    split at read
    · next start =>
      obtain ⟨_, sizes, widths⟩ := (plausibleStart_iff pad size width).mp start
      split at read
      · cases read
      · next g found =>
        have known := List.mem_of_find?_eq_some found
        have named : g.magic.toUInt64 = magic := by simpa using List.find?_some found
        split at read
        · cases read
        · next words there =>
          cases read
          refine ⟨?_, ?_, headerWords?_first (words_pos known) there, g, known,
            named ▸ magicRead, rfl⟩
          · exact widths.imp (congrArg UInt64.toUInt32) (congrArg UInt64.toUInt32)
          · exact sizes.imp (congrArg UInt64.toUInt32)
              (Or.imp (congrArg UInt64.toUInt32) (congrArg UInt64.toUInt32))
    · cases read
  · cases read

end Header

section Names

/-- The functions of a listing that have no name of their own are numbered along it. -/
theorem getElem?_nameFunctions (number : Nat) (functions : List RawFunction) (i : Nat) :
    (nameFunctions number functions)[i]? = functions[i]?.map fun f =>
      ⟨f.name?.getD (unnamed (number + (functions.take i).countP (·.name?.isNone))), f.fileEntry,
        f.entry, f.deltas.toArray⟩ := by
  induction functions generalizing number i with
  | nil => rfl
  | cons f rest ih =>
      rw [nameFunctions]
      cases named : f.name? with
      | some name => cases i <;> simp [ih, named]
      | none =>
          cases i with
          | zero => simp [named]
          | succ i => simp [ih, named, Nat.add_assoc, Nat.add_comm 1]

theorem length_nameFunctions (number : Nat) (functions : List RawFunction) :
    (nameFunctions number functions).length = functions.length := by
  induction functions generalizing number with
  | nil => rfl
  | cons f rest ih => cases named : f.name? <;> simp [nameFunctions, named, ih]

end Names

section StackMaps

/-- A stack map begins at the program counter that it is read from. -/
theorem pc_of_decodeDeltas {data : Bytes} {entry size pc : UInt64} {offset : Nat} {sp : Int}
    {d : StackDelta} (first : (decodeDeltas data entry size offset pc sp)[0]? = some d) :
    d.pc = pc := by
  rw [decodeDeltas] at first
  repeat' split at first
  all_goals cases first
  rfl

end StackMaps

section Version

variable {t : FunctionTable}

/-- Only the bounds of whole generations are cut down. -/
theorem narrowedVersion_of_not_mem (other : t.version ∉ generations.map Generation.version) :
    t.narrowedVersion = t.version := by
  simp only [generations, generation2, generation16, generation18, generation20, List.map_cons,
    List.map_nil, List.mem_cons, List.not_mem_nil, or_false, not_or] at other
  obtain ⟨oldest, middle, newer, newest⟩ := other
  rw [narrowedVersion]
  simp only
  rw [if_neg newest, if_neg newer, if_neg middle, if_neg oldest]

/-- What a bound is cut down to is not the bound of a whole generation. -/
theorem narrowedVersion_cases (t : FunctionTable) : t.narrowedVersion = t.version ∨
    t.narrowedVersion ∉ generations.map Generation.version := by
  rw [narrowedVersion]
  simp only
  split_ifs
  all_goals first | exact .inl rfl | exact .inr (by decide)

/-- A bound that was cut down is not cut down again. -/
theorem narrowed_narrowed (t : FunctionTable) : t.narrowed.narrowed = t.narrowed := by
  have settled : t.narrowed.narrowedVersion = t.narrowedVersion := by
    obtain same | other := narrowedVersion_cases t
    · rw [narrowed, same]
      exact same
    · exact narrowedVersion_of_not_mem other
  rw [narrowed, settled]
  rfl

/-- Cutting the bound of a generation down leaves releases of that generation, and some. -/
theorem narrowedVersion_within {g : Generation} (known : g ∈ generations)
    (version : t.version = g.version) : g.version.min ≤ t.narrowedVersion.min ∧
      t.narrowedVersion.min ≤ t.narrowedVersion.max ∧
      t.narrowedVersion.max ≤ g.version.max := by
  simp only [generations, List.mem_cons, List.not_mem_nil, or_false] at known
  simp only [narrowedVersion, version]
  obtain rfl | rfl | rfl | rfl := known
  · rw [if_neg (by decide), if_neg (by decide), if_neg (by decide), if_pos (by decide)]
    split_ifs <;> decide
  · rw [if_neg (by decide), if_neg (by decide), if_pos (by decide)]
    split_ifs <;> decide
  · rw [if_neg (by decide), if_pos (by decide)]
    split_ifs <;> decide
  · rw [if_pos (by decide)]
    split_ifs <;> decide

end Version

section WellFormed

variable {c : Candidate} {m : Memory} {h : Header} {t : FunctionTable}

/-- The name of the function of a pair cannot be read. -/
def Header.nameless (h : Header) (c : Candidate) (m : Memory) (index : Nat) : Bool :=
  (h.readFunction c m index).toOption.any (·.name?.isNone)

/-- The functions in the order of their pairs: as many as the header counts, each as its pair says,
and those without a readable name numbered by how many of these there are before them. -/
structure PairOrder (c : Candidate) (m : Memory) (h : Header) (listed : List FunctionEntry) :
    Prop where
  length : listed.length = h.functionCount.toNat
  pair : ∀ (i : Nat) f, listed[i]? = some f → ∃ raw, h.readFunction c m i = .ok raw ∧
    f.fileEntry = raw.fileEntry ∧ f.entry = raw.entry ∧ f.deltas = raw.deltas.toArray ∧
    f.name = raw.name?.getD (unnamed ((List.range i).countP (h.nameless c m)))

/-- What every table keeps that is read of a candidate. -/
structure WellFormed (c : Candidate) (m : Memory) (t : FunctionTable) : Prop where
  width : t.pointerWidth = 4 ∨ t.pointerWidth = 8
  unit : t.minInstructionSize = 1 ∨ t.minInstructionSize = 2 ∨ t.minInstructionSize = 4
  /-- The first header word counts the functions, and there are some. -/
  count : ∃ n, c.data.read? 8 t.pointerWidth.toNat = some n ∧ n ≠ 0 ∧
    t.functions.size = n.toNat
  ordered : t.functions.toList.Pairwise fun f g => f.entry ≤ g.entry
  /-- Functions with one entry come in the order of their pairs. -/
  pairs : ∃ h listed, readHeader c.data = .ok h ∧ PairOrder c m h listed ∧
    t.functions.toList.Perm listed ∧
    ∀ entry, t.functions.toList.filter (fun f => f.entry = entry) =
      listed.filter fun f => f.entry = entry
  entries : ∀ f ∈ t.functions, f.entry = m.toRuntime f.fileEntry
  maxPc : t.maxPc = m.toRuntime t.maxPcFile
  deltas : ∀ f ∈ t.functions, ∀ d, f.deltas[0]? = some d → d.pc = f.entry
  /-- The bound lies within that of the magic number. -/
  version : ∃ g ∈ generations, c.data.read? 0 4 = some g.magic.toUInt64 ∧
    g.version.min ≤ t.version.min ∧ t.version.min ≤ t.version.max ∧
    t.version.max ≤ g.version.max
  settled : t.narrowed = t

/-- What a pair says of a function. -/
theorem Header.readFunction_eq_ok {index : Nat} {raw : RawFunction}
    (read : h.readFunction c m index = .ok raw) :
    raw.entry = m.toRuntime raw.fileEntry ∧ ∀ d, raw.deltas[0]? = some d → d.pc = raw.entry := by
  unfold Header.readFunction at read
  simp only at read
  split at read
  · split at read
    · cases read
      exact ⟨rfl, fun d first => pc_of_decodeDeltas first⟩
    · cases read
  · cases read

/-- A table that was read is that of its pairs. -/
theorem decodeWith_eq_ok (read : decodeWith c m h = .ok t) :
    h.functionCount ≠ 0 ∧ ∃ raws last,
      (List.range h.functionCount.toNat).mapM (h.readFunction c m) = .ok raws ∧
      t = { functions := sorted (nameFunctions 0 raws)
            maxPcFile := h.textBias + last
            maxPc := m.toRuntime (h.textBias + last)
            version := h.version
            pointerWidth := h.pointerWidth
            minInstructionSize := h.instructionSize } := by
  rw [decodeWith] at read
  split at read
  · cases read
  · split at read
    · next counted =>
      split at read
      · cases read
      · next raws there =>
        split at read
        · cases read
        · next last _ =>
          refine ⟨?_, raws, last, there, (Except.ok.inj read).symm⟩
          rintro zero
          simp [zero, Header.plausible] at counted
    · cases read

/-- The functions that are named in the order of their pairs. -/
theorem pairOrder_nameFunctions {raws : List RawFunction}
    (read : (List.range h.functionCount.toNat).mapM (h.readFunction c m) = .ok raws) :
    PairOrder c m h (nameFunctions 0 raws) := by
  have each := map_eq_of_mapM_ok read
  have length : raws.length = h.functionCount.toNat := by
    have lengths := congrArg List.length each
    rw [List.length_map, List.length_map, List.length_range] at lengths
    exact lengths.symm
  refine ⟨?_, fun i f mem => ?_⟩
  · rw [length_nameFunctions, length]
  · rw [getElem?_nameFunctions] at mem
    obtain ⟨raw, there, rfl⟩ := Option.map_eq_some_iff.mp mem
    have inside : i < h.functionCount.toNat := length ▸ (List.getElem?_eq_some_iff.mp there).1
    have here : h.readFunction c m i = .ok raw := by
      have same := congrArg (·[i]?) each
      simp only [List.getElem?_map, there, List.getElem?_range inside] at same
      exact Option.some.inj same
    have before : (raws.take i).countP (·.name?.isNone) =
        (List.range i).countP (h.nameless c m) := by
      have taken := congrArg
        (List.countP (fun e => e.toOption.any (·.name?.isNone)) ∘ List.take i) each
      simp only [Function.comp_apply, ← List.map_take, List.countP_map, List.take_range,
        Nat.min_eq_left (Nat.le_of_lt inside)] at taken
      exact taken.symm
    exact ⟨raw, here, rfl, rfl, rfl, by rw [Nat.zero_add, before]⟩

/-- Each function of a table is that of a pair. -/
theorem PairOrder.mem {listed : List FunctionEntry} (order : PairOrder c m h listed)
    {f : FunctionEntry} (mem : f ∈ listed) :
    f.entry = m.toRuntime f.fileEntry ∧ ∀ d, f.deltas[0]? = some d → d.pc = f.entry := by
  obtain ⟨i, there⟩ := List.mem_iff_getElem?.mp mem
  obtain ⟨raw, read, file, entry, deltas, _⟩ := order.pair i f there
  obtain ⟨moved, first⟩ := h.readFunction_eq_ok read
  rw [file, entry, deltas]
  exact ⟨moved, fun d mem => first d (by simpa using mem)⟩

/-- A table that was read has a header that was read, and its version bound is cut down. -/
theorem decode_eq_ok (read : decode c m = .ok t) :
    ∃ h whole, readHeader c.data = .ok h ∧ decodeWith c m h = .ok whole ∧ t = whole.narrowed := by
  rw [decode] at read
  split at read
  · cases read
  · next h header =>
    cases table : decodeWith c m h with
    | error e =>
        rw [table] at read
        cases read
    | ok whole =>
        rw [table] at read
        exact ⟨h, whole, header, table, (Except.ok.inj read).symm⟩

/-- Whatever the bytes are and whatever names can be read, a table that comes out of them is well
formed. Where the program runs at a distance from its binary, so do all functions and the end of the
text. -/
theorem decode_wellFormed (read : decode c m = .ok t) :
    WellFormed c m t ∧ ∀ b, (∀ a, m.toRuntime a = a + b) →
      (∀ f ∈ t.functions, f.entry = f.fileEntry + b) ∧ t.maxPc = t.maxPcFile + b := by
  obtain ⟨h, whole, header, table, rfl⟩ := decode_eq_ok read
  obtain ⟨some, raws, last, there, rfl⟩ := decodeWith_eq_ok table
  have sound := sound_of_readHeader header
  have order := pairOrder_nameFunctions there
  have each (f : FunctionEntry) (mem : f ∈ sorted (nameFunctions 0 raws)) :=
    order.mem ((perm_sorted _).mem_iff.mp (Array.mem_toList_iff.mpr mem))
  have size : (sorted (nameFunctions 0 raws)).size = h.functionCount.toNat := by
    rw [← Array.length_toList, (perm_sorted _).length_eq, order.length]
  obtain ⟨g, known, magic, version⟩ := sound.version
  refine ⟨?_, fun b moved => ⟨fun f mem => ?_, moved _⟩⟩
  · exact
      { width := sound.width
        unit := sound.unit
        count := ⟨h.functionCount, sound.count, some, size⟩
        ordered := pairwise_sorted _
        pairs := ⟨h, _, header, order, perm_sorted _, filter_sort FunctionEntry.entry _⟩
        entries := fun f mem => (each f mem).1
        maxPc := rfl
        deltas := fun f mem => (each f mem).2
        version := ⟨g, known, magic, narrowedVersion_within known version⟩
        settled := narrowed_narrowed _ }
  · exact ((each f mem).1).trans (moved _)

/-- A memory of which nothing can be read, of a program that runs at a distance from its binary. -/
def silentMemory : Memory where
  readBytes address length := .error ⟨.unmapped, address, length⟩
  readCString address limit := .error ⟨.unmapped, address, limit.toUInt64⟩
  toRuntime address := address + 0x100000

theorem sorted_pair {f g : FunctionEntry} (less : g.entry < f.entry) :
    sorted [f, g] = #[g, f] := by
  simp [sorted, List.mergeSort, UInt64.not_le.mpr less]

/-- Two functions in the wrong order, whose names cannot be read: the numbers tell which pair came
first. -/
theorem decode_wellFormed_nameless :
    ∃ t, decode ⟨exchanged.data, 0x500000, 0x600000⟩ silentMemory = .ok t ∧
      WellFormed ⟨exchanged.data, 0x500000, 0x600000⟩ silentMemory t ∧
      t.functions.map (fun f => (f.name, f.entry)) =
        #[(utf8 "Unnamed_1", 0x101000), (utf8 "Unnamed_0", 0x102000)] ∧
      t.maxPc = t.maxPcFile + 0x100000 := by
  have read : decode ⟨exchanged.data, 0x500000, 0x600000⟩ silentMemory =
      .ok (Contents.table ⟨exchanged.layout.header 2, [⟨0x2000, 0, 0⟩, ⟨0x1000, 7, 5⟩], 0x3000⟩
        ⟨exchanged.data, 0x500000, 0x600000⟩ silentMemory).narrowed := by
    rw [decode_eq, contents_exchanged]
    rfl
  obtain ⟨formed, moved⟩ := decode_wellFormed read
  refine ⟨_, read, formed, ?_, (moved 0x100000 fun _ => rfl).2⟩
  show (sorted (nameFunctions 0 _)).map _ = _
  simp only [List.map_cons, List.map_nil, nameFunctions, Header.functionOf, silentMemory,
    Except.toOption]
  rw [sorted_pair (by decide), List.map_toArray]
  exact congrArg List.toArray (by decide +kernel)

end WellFormed

end FunctionTable

end GoInspect
