import GoInspect.Proofs.FunctionTable.Lookup
import GoInspect.Proofs.FunctionTable.Pairs
import GoInspect.Proofs.FunctionTable.RoundTrip
import GoInspect.Proofs.Traversal

/-!
# A table that was loaded elsewhere

Loading a binary at another place adds one number to all addresses of the running program. The bytes
of a table say the same wherever it is loaded, and what is made of them moves as a whole, as long as
no address wraps around.
-/

namespace GoInspect

namespace FunctionTable

/-- The same bytes elsewhere in memory. -/
def Candidate.moved (b : UInt64) (c : Candidate) : Candidate :=
  { c with runtimeAddress := c.runtimeAddress + b }

section StackMaps

/-- How far pairs move the program counter, the last one included, if nothing wraps around. -/
def distance (size : UInt64) : List (UInt32 × UInt32) → Nat
  | [] => 0
  | (_, step) :: rest => step.toNat * size.toNat + distance size rest

variable {data : Bytes} {entry size pc b : UInt64} {value step unit : UInt32}
variable {offset next rest : Nat}

/-- The same pairs are read elsewhere. The program counter takes part in their reading where a map
may end, by being compared to the entry. -/
theorem mapPairs_moved (place : entry.toNat + b.toNat < 2 ^ 64)
    (room : pc.toNat + b.toNat +
      distance size (mapPairs data (entry + b) size offset (pc + b)) < 2 ^ 64) :
    mapPairs data (entry + b) size offset (pc + b) = mapPairs data entry size offset pc := by
  have stop : entry + b < pc + b ↔ entry < pc := moved_lt_moved place (by omega)
  -- The room shrinks by each step that is read, and what is left holds the rest of the pairs.
  fun_induction mapPairs data entry size offset pc with
  | case1 _ _ first => exact mapPairs_of_end first
  | case2 _ _ _ _ first stops => exact mapPairs_of_stop first (by rwa [stop])
  | case3 _ _ _ _ first _ second => exact mapPairs_of_cut first second
  | case4 offset pc value next first goes step rest second ih =>
      rw [mapPairs_of_pair first (by rwa [stop]) second, moved_add] at room ⊢
      rw [distance] at room
      have far : (pc + step.toUInt64 * size).toNat = pc.toNat + step.toNat * size.toNat := by
        rw [UInt64.toNat_add, UInt64.toNat_mul, UInt32.toNat_toUInt64,
          Nat.mod_eq_of_lt (a := step.toNat * size.toNat) (by omega), Nat.mod_eq_of_lt (by omega)]
      rw [ih (by omega) (moved_lt_moved place (by omega))]

theorem deltasOf_moved (pc : UInt64) (sp : Int) (pairs : List (UInt32 × UInt32)) :
    deltasOf size (pc + b) sp pairs = (deltasOf size pc sp pairs).map (StackDelta.moved b) := by
  fun_induction deltasOf size pc sp pairs with
  | case1 => rfl
  | case2 pc sp value step rest sp' ih =>
      rw [deltasOf, moved_add, List.map_cons, ih]
      rfl

/-- No stack delta lies behind the distance. -/
theorem toNat_pc_le {pairs : List (UInt32 × UInt32)} {sp : Int} {d : StackDelta}
    (mem : d ∈ deltasOf size pc sp pairs) : d.pc.toNat ≤ pc.toNat + distance size pairs := by
  induction pairs generalizing pc sp with
  | nil => cases mem
  | cons pair others ih =>
      obtain ⟨value, step⟩ := pair
      rw [distance]
      obtain rfl | mem := List.mem_cons.mp mem
      · exact Nat.le_add_right ..
      · have far : (pc + step.toUInt64 * size).toNat ≤ pc.toNat + step.toNat * size.toNat := by
          rw [UInt64.toNat_add, UInt64.toNat_mul, UInt32.toNat_toUInt64]
          exact Nat.le_trans (Nat.mod_le _ _) (Nat.add_le_add_left (Nat.mod_le _ _) _)
        exact Nat.le_trans (ih mem) (by omega)

/-- Each pair takes two bytes at least, so that a map cannot reach far. -/
theorem distance_mapPairs_le (offset : Nat) (pc : UInt64) :
    distance size (mapPairs data entry size offset pc) ≤
      (data.size - offset) * (2 ^ 32 * size.toNat) := by
  fun_induction mapPairs data entry size offset pc with
  | case1 => exact Nat.zero_le _
  | case2 => exact Nat.zero_le _
  | case3 => exact Nat.zero_le _
  | case4 offset pc value next first goes step rest second ih =>
      have here := Varint.read?_bounds first
      have there := Varint.read?_bounds second
      have small : step.toNat * size.toNat ≤ 2 ^ 32 * size.toNat :=
        Nat.mul_le_mul_right _ (Nat.le_of_lt step.toNat_lt)
      have shrinks : data.size - rest + 1 ≤ data.size - offset := by omega
      calc step.toNat * size.toNat + distance size _
          ≤ 2 ^ 32 * size.toNat + (data.size - rest) * (2 ^ 32 * size.toNat) := by omega
        _ = (data.size - rest + 1) * (2 ^ 32 * size.toNat) := by
            rw [Nat.add_comm, ← Nat.succ_mul]
        _ ≤ (data.size - offset) * (2 ^ 32 * size.toNat) := Nat.mul_le_mul_right _ shrinks

/-- Where a stack map reaches that is read with its function loaded `b` further on: behind all of
its program counters, and to the one after the last pair. -/
def mapReach (data : Bytes) (offset : Nat) (fileEntry : UInt64) (unit : UInt32) (b : UInt64) :
    Nat :=
  fileEntry.toNat + b.toNat + distance unit.toUInt64
    (mapPairs data (fileEntry + b) unit.toUInt64 offset (fileEntry + b))

theorem stackMap_moved (room : mapReach data offset entry unit b < 2 ^ 64) :
    stackMap data offset (entry + b) unit =
      (stackMap data offset entry unit).map (StackDelta.moved b) := by
  have place : entry.toNat + b.toNat < 2 ^ 64 := Nat.lt_of_le_of_lt (Nat.le_add_right ..) room
  rw [stackMap, stackMap, decodeDeltas_eq, decodeDeltas_eq, mapPairs_moved place room,
    deltasOf_moved]

theorem stackMap_room (room : mapReach data offset entry unit b < 2 ^ 64) {d : StackDelta}
    (mem : d ∈ stackMap data offset entry unit) : d.pc.toNat + b.toNat < 2 ^ 64 := by
  have place : entry.toNat + b.toNat < 2 ^ 64 := Nat.lt_of_le_of_lt (Nat.le_add_right ..) room
  rw [stackMap, decodeDeltas_eq, ← mapPairs_moved place room] at mem
  have below := toNat_pc_le mem
  unfold mapReach at room
  omega

end StackMaps

section Contents

/-- What the bytes say of a function. -/
structure Record where
  /-- What its pair gives for the entry. -/
  start : UInt64
  /-- Where its name stands among the names. -/
  name : UInt64
  /-- Where its stack map stands among the stack maps. -/
  map : UInt64
  deriving DecidableEq

/-- What the bytes of a table say, wherever they are loaded. -/
structure Contents where
  header : Header
  /-- The functions, in the order of their pairs. -/
  records : List Record
  /-- The number after the last pair. -/
  last : UInt64
  deriving DecidableEq

/-- What the bytes say of the function at an index. -/
def Header.record (h : Header) (data : Bytes) (index : Nat) : Except Rejection Record :=
  let i := UInt64.ofNat index
  match data.read? (h.pairAt (2 * i)) h.pairWidth.toNat,
    data.read? (h.pairAt (2 * i + 1)) h.pairWidth.toNat with
  | some start, some place =>
    match data.read? (h.infoAt place) 4, data.read? (h.infoAt place + 12) 4 with
    | some name, some map => .ok ⟨start, name, map⟩
    | _, _ => .error (.infoOutside index)
  | _, _ => .error (.pairOutside index)

/-- What the bytes behind a header say. -/
def Header.contents (h : Header) (data : Bytes) : Except Rejection Contents :=
  if h.pairOffset % h.pairWidth.toUInt64 ≠ 0 then .error (.misaligned h.pairOffset h.pairWidth)
  else if h.plausible data.size then
    match (List.range h.functionCount.toNat).mapM (h.record data) with
    | .error e => .error e
    | .ok records =>
      match data.read? (h.pairAt (2 * h.functionCount)) h.pairWidth.toNat with
      | none => .error .endOutside
      | some last => .ok ⟨h, records, last⟩
  else .error (.count h.functionCount)

/-- What the bytes of a table say, or why they do not hold one. -/
def contents (data : Bytes) : Except Rejection Contents :=
  match readHeader data with
  | .error e => .error e
  | .ok h => h.contents data

/-- The function of a record. -/
def Header.functionOf (h : Header) (c : Candidate) (m : Memory) (r : Record) : RawFunction :=
  let entry := m.toRuntime (h.textBias + r.start)
  { name? := (m.readCString (h.nameAt c.runtimeAddress r.name) maxNameLength).toOption
    fileEntry := h.textBias + r.start
    entry
    deltas := stackMap c.data (h.stackMapAt r.map).toNat entry h.instructionSize }

namespace Contents

def maxPcFile (x : Contents) : UInt64 := x.header.textBias + x.last

def table (x : Contents) (c : Candidate) (m : Memory) : FunctionTable where
  functions := sorted (nameFunctions 0 (x.records.map (x.header.functionOf c m)))
  maxPcFile := x.maxPcFile
  maxPc := m.toRuntime x.maxPcFile
  version := x.header.version
  pointerWidth := x.header.pointerWidth
  minInstructionSize := x.header.instructionSize

end Contents

variable {c : Candidate} {m : Memory}

theorem readFunction_eq (h : Header) :
    h.readFunction c m = fun index => h.functionOf c m <$> h.record c.data index := by
  funext index
  unfold Header.readFunction Header.record
  simp only
  cases c.data.read? (h.pairAt (2 * UInt64.ofNat index)) h.pairWidth.toNat with
  | none => rfl
  | some start =>
      cases c.data.read? (h.pairAt (2 * UInt64.ofNat index + 1)) h.pairWidth.toNat with
      | none => rfl
      | some place =>
          simp only
          cases c.data.read? (h.infoAt place) 4 with
          | none => rfl
          | some name => cases c.data.read? (h.infoAt place + 12) 4 <;> rfl

theorem decodeWith_eq (h : Header) :
    decodeWith c m h = (h.contents c.data).map fun x => x.table c m := by
  unfold decodeWith Header.contents
  rw [readFunction_eq, mapM_map_result]
  split
  · rfl
  split
  · cases (List.range h.functionCount.toNat).mapM (h.record c.data) with
    | error e => rfl
    | ok records =>
        simp only [Functor.map, Except.map]
        cases c.data.read? (h.pairAt (2 * h.functionCount)) h.pairWidth.toNat <;> rfl
  · rfl

/-- Whether bytes hold a table, and why not, is for the bytes alone to say. -/
theorem decode_eq : decode c m = (contents c.data).map fun x => (x.table c m).narrowed := by
  unfold decode contents
  cases readHeader c.data with
  | error e => rfl
  | ok h =>
      simp only [decodeWith_eq]
      cases h.contents c.data <;> rfl

end Contents

section Moved

variable {b : UInt64}

/-- A function elsewhere, before it is known which unnamed one it is. -/
def RawFunction.moved (b : UInt64) (f : RawFunction) : RawFunction :=
  { f with entry := f.entry + b, deltas := f.deltas.map (StackDelta.moved b) }

theorem nameFunctions_moved (number : Nat) (functions : List RawFunction) :
    nameFunctions number (functions.map (RawFunction.moved b)) =
      (nameFunctions number functions).map (FunctionEntry.moved b) := by
  induction functions generalizing number with
  | nil => rfl
  | cons f rest ih =>
      rw [List.map_cons, nameFunctions, nameFunctions]
      cases named : f.name? <;> simp [RawFunction.moved, FunctionEntry.moved, ih, named]

theorem map_nameFunctions (number : Nat) (functions : List RawFunction) :
    (nameFunctions number functions).map (fun f => (f.entry, f.deltas)) =
      functions.map fun f => (f.entry, f.deltas.toArray) := by
  induction functions generalizing number with
  | nil => rfl
  | cons f rest ih => cases named : f.name? <;> simp [nameFunctions, named, ih]

/-- Naming leaves entries and stack maps as they are. -/
theorem mem_nameFunctions {number : Nat} {functions : List RawFunction} {f : FunctionEntry}
    (mem : f ∈ nameFunctions number functions) :
    ∃ raw ∈ functions, raw.entry = f.entry ∧ raw.deltas.toArray = f.deltas := by
  have listed := List.mem_map_of_mem (f := fun f => (f.entry, f.deltas)) mem
  rw [map_nameFunctions] at listed
  obtain ⟨raw, inside, same⟩ := List.mem_map.mp listed
  exact ⟨raw, inside, Prod.mk.inj same⟩

theorem sorted_moved {functions : List FunctionEntry}
    (room : ∀ f ∈ functions, f.entry.toNat + b.toNat < 2 ^ 64) :
    sorted (functions.map (FunctionEntry.moved b)) =
      (sorted functions).map (FunctionEntry.moved b) := by
  have order : ∀ f ∈ functions, ∀ g ∈ functions,
      decide (f.entry ≤ g.entry) = decide ((f.moved b).entry ≤ (g.moved b).entry) := by
    intro f memf g memg
    refine decide_eq_decide.mpr ?_
    rw [← UInt64.not_lt, ← UInt64.not_lt]
    exact not_congr (moved_lt_moved (room g memg) (room f memf)).symm
  rw [sorted, sorted, List.map_toArray,
    List.map_mergeSort (s := fun f g => f.entry ≤ g.entry) order]

/-- Loading the bytes of a table `b` further on makes no address wrap around: no entry, no program
counter of a stack map, the one after its last pair included, and not the end of the text. -/
structure Contents.HasRoom (x : Contents) (data : Bytes) (b : UInt64) : Prop where
  maps : ∀ r ∈ x.records, mapReach data (x.header.stackMapAt r.map).toNat
    (x.header.textBias + r.start) x.header.instructionSize b < 2 ^ 64
  maxPc : x.maxPcFile.toNat + b.toNat < 2 ^ 64

/-- The memories of one program, which `m` shows at the addresses of the binary and `m'` shows
loaded `b` further on. -/
structure Relocates (x : Contents) (c : Candidate) (b : UInt64) (m m' : Memory) : Prop where
  plain : ∀ a, m.toRuntime a = a
  biased : ∀ a, m'.toRuntime a = a + b
  /-- Errors do not count; they carry the address. -/
  names : ∀ r ∈ x.records,
    (m'.readCString (x.header.nameAt c.runtimeAddress r.name + b) maxNameLength).toOption =
      (m.readCString (x.header.nameAt c.runtimeAddress r.name) maxNameLength).toOption

variable {c : Candidate} {m m' : Memory} {x : Contents}

/-- Addresses far below the top leave room, since no stack map reaches further than its bytes let
it. -/
theorem hasRoom_of_low {data : Bytes} (maps : ∀ r ∈ x.records,
      (x.header.textBias + r.start).toNat + b.toNat +
        data.size * (2 ^ 32 * x.header.instructionSize.toUInt64.toNat) < 2 ^ 64)
    (maxPc : x.maxPcFile.toNat + b.toNat < 2 ^ 64) : x.HasRoom data b := by
  refine ⟨fun r mem => ?_, maxPc⟩
  have short : distance x.header.instructionSize.toUInt64 (mapPairs data
      (x.header.textBias + r.start + b) x.header.instructionSize.toUInt64
      (x.header.stackMapAt r.map).toNat (x.header.textBias + r.start + b)) ≤ _ :=
    distance_mapPairs_le _ _
  have few := Nat.mul_le_mul_right (2 ^ 32 * x.header.instructionSize.toUInt64.toNat)
    (Nat.sub_le data.size (x.header.stackMapAt r.map).toNat)
  have low := maps r mem
  unfold mapReach
  omega

theorem functionOf_moved (room : x.HasRoom c.data b) (same : Relocates x c b m m') {r : Record}
    (mem : r ∈ x.records) :
    x.header.functionOf (c.moved b) m' r = (x.header.functionOf c m r).moved b := by
  have place : x.header.nameAt (c.moved b).runtimeAddress r.name =
      x.header.nameAt c.runtimeAddress r.name + b := moved_add ..
  unfold Header.functionOf RawFunction.moved
  simp only [place, same.names r mem, same.biased, same.plain]
  rw [← stackMap_moved (room.maps r mem)]
  rfl

theorem functions_hasRoom (room : x.HasRoom c.data b) (plain : ∀ a, m.toRuntime a = a)
    {f : FunctionEntry}
    (mem : f ∈ nameFunctions 0 (x.records.map (x.header.functionOf c m))) :
    f.entry.toNat + b.toNat < 2 ^ 64 ∧ ∀ d ∈ f.deltas, d.pc.toNat + b.toNat < 2 ^ 64 := by
  obtain ⟨raw, inside, entry, deltas⟩ := mem_nameFunctions mem
  obtain ⟨r, listed, rfl⟩ := List.mem_map.mp inside
  have reach := room.maps r listed
  rw [← entry, ← deltas]
  unfold Header.functionOf
  simp only [plain]
  refine ⟨Nat.lt_of_le_of_lt (Nat.le_add_right ..) reach, fun d read => ?_⟩
  exact stackMap_room reach (List.mem_toArray.mp read)

theorem table_hasRoom (room : x.HasRoom c.data b) (plain : ∀ a, m.toRuntime a = a) :
    (x.table c m).HasRoom b := by
  have each : ∀ f ∈ (x.table c m).functions,
      f.entry.toNat + b.toNat < 2 ^ 64 ∧ ∀ d ∈ f.deltas, d.pc.toNat + b.toNat < 2 ^ 64 :=
    fun f mem => functions_hasRoom room plain (List.mem_mergeSort.mp (List.mem_toArray.mp mem))
  refine ⟨fun f mem => (each f mem).1, fun f mem => (each f mem).2, ?_⟩
  show (m.toRuntime x.maxPcFile).toNat + b.toNat < 2 ^ 64
  rw [plain]
  exact room.maxPc

theorem table_moved (room : x.HasRoom c.data b) (same : Relocates x c b m m') :
    x.table (c.moved b) m' = (x.table c m).moved b := by
  have functions : x.records.map (x.header.functionOf (c.moved b) m') =
      (x.records.map (x.header.functionOf c m)).map (RawFunction.moved b) := by
    rw [List.map_map]
    exact List.map_congr_left fun r mem => functionOf_moved room same mem
  have entries : ∀ f ∈ nameFunctions 0 (x.records.map (x.header.functionOf c m)),
      f.entry.toNat + b.toNat < 2 ^ 64 := fun f mem => (functions_hasRoom room same.plain mem).1
  unfold Contents.table moved
  simp only [functions, nameFunctions_moved, sorted_moved entries, same.biased, same.plain]

/-- Loading a table elsewhere translates what is read of it and does nothing else. Bytes that hold
no table are rejected for the same reason. -/
theorem decode_relocated (room : ∀ x, contents c.data = .ok x → x.HasRoom c.data b)
    (same : ∀ x, contents c.data = .ok x → Relocates x c b m m') :
    decode (c.moved b) m' = (decode c m).map (moved b) ∧
      ∀ t, decode c m = .ok t →
        (∀ pc, (t.moved b).find? (pc + b) =
          (t.find? pc).map fun (f, offset) => (f.moved b, offset)) ∧
        ∀ pc sp, (t.moved b).frameBase? (pc + b) sp = t.frameBase? pc sp := by
  rw [decode_eq, decode_eq]
  show (contents c.data).map _ = _ ∧ _
  cases read : contents c.data with
  | error e => exact ⟨rfl, nofun⟩
  | ok x =>
      have place : ((x.table c m).narrowed).HasRoom b :=
        (table_hasRoom (room x read) (same x read).plain).narrowed
      refine ⟨?_, ?_⟩
      · simp only [Except.map, table_moved (room x read) (same x read), narrowed_moved]
      · rintro t ⟨⟩
        exact ⟨place.find?_moved, place.frameBase?_moved⟩

theorem contents_exchanged : contents exchanged.data =
    .ok ⟨exchanged.layout.header 2, [⟨0x2000, 0, 0⟩, ⟨0x1000, 7, 5⟩], 0x3000⟩ := by
  have read : (contents exchanged.data).toOption =
      some ⟨exchanged.layout.header 2, [⟨0x2000, 0, 0⟩, ⟨0x1000, 7, 5⟩], 0x3000⟩ := by
    decide +kernel
  cases made : contents exchanged.data with
  | error e =>
      rw [made] at read
      cases read
  | ok x =>
      rw [made] at read
      exact congrArg _ (Option.some.inj read)

theorem decode_relocated_exchanged :
    (contents exchanged.data).isOk ∧
      decode ⟨exchanged.data, 0x500000, 0x700000⟩
          (MappedMemory.map ⟨∅, 0x100000⟩ 0x700000 exchanged.data).toMemory =
        (decode ⟨exchanged.data, 0x500000, 0x600000⟩
          (MappedMemory.map ⟨∅, 0⟩ 0x600000 exchanged.data).toMemory).map (moved 0x100000) := by
  have holds : (contents exchanged.data).isOk := by
    rw [contents_exchanged]
    rfl
  refine ⟨holds, ?_⟩
  refine (decode_relocated (b := 0x100000) (c := ⟨exchanged.data, 0x500000, 0x600000⟩) ?_ ?_).1
  · intro x read
    cases contents_exchanged.symm.trans read
    exact hasRoom_of_low (by decide +kernel) (by decide)
  · intro x read
    cases contents_exchanged.symm.trans read
    exact ⟨UInt64.add_zero, fun _ => rfl, by decide +kernel⟩

end Moved

end FunctionTable

end GoInspect
