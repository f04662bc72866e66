import GoInspect.FunctionTable.Decode
import GoInspect.Proofs.Varint.Stream

/-!
# The pairs of a stack map

A stack map is read pair by pair: a folded step of the distance, and a step of the program counter
in units of an instruction. A stack delta is the sum of the steps before it, and its distance takes
its own step in. The reading ends at the first place where no whole pair stands, or where the step
of the distance is zero and the program counter has left the entry. Behind such a zero more bytes
change nothing; a pair that is cut off may become whole.
-/

namespace GoInspect

namespace FunctionTable

/-- The pairs of a stack map that are read, each a folded step of the distance and a step of the
program counter in units of an instruction. -/
def mapPairs (data : Bytes) (entry size : UInt64) (offset : Nat) (pc : UInt64) :
    List (UInt32 × UInt32) :=
  match _h : Varint.read? data offset with
  | none => []
  | some (value, next) =>
    if value = 0 ∧ entry < pc then []
    else
      match _h' : Varint.read? data next with
      | none => []
      | some (step, rest) =>
        (value, step) :: mapPairs data entry size rest (pc + step.toUInt64 * size)
termination_by data.size - offset
decreasing_by
  have := Varint.read?_bounds _h
  have := Varint.read?_bounds _h'
  omega

/-- The stack deltas of pairs from a program counter and a distance on. -/
def deltasOf (size : UInt64) : (pc : UInt64) → (sp : Int) → List (UInt32 × UInt32) → List StackDelta
  | _, _, [] => []
  | pc, sp, (value, step) :: rest =>
    let sp := sp + Varint.unfold value
    ⟨pc, sp⟩ :: deltasOf size (pc + step.toUInt64 * size) sp rest

variable {data : Bytes} {entry size pc : UInt64} {value step unit : UInt32}
variable {offset next rest : Nat}

theorem mapPairs_of_end (first : Varint.read? data offset = none) :
    mapPairs data entry size offset pc = [] := by
  rw [mapPairs, first]

theorem mapPairs_of_stop (first : Varint.read? data offset = some (value, next))
    (stops : value = 0 ∧ entry < pc) : mapPairs data entry size offset pc = [] := by
  rw [mapPairs, first]
  exact if_pos stops

theorem mapPairs_of_cut (first : Varint.read? data offset = some (value, next))
    (second : Varint.read? data next = none) : mapPairs data entry size offset pc = [] := by
  rw [mapPairs, first]
  simp only
  rw [second]
  exact ite_self _

theorem mapPairs_of_pair (first : Varint.read? data offset = some (value, next))
    (goes : ¬(value = 0 ∧ entry < pc)) (second : Varint.read? data next = some (step, rest)) :
    mapPairs data entry size offset pc =
      (value, step) :: mapPairs data entry size rest (pc + step.toUInt64 * size) := by
  rw [mapPairs, first]
  simp only
  rw [second]
  exact if_neg goes

/-- A stack map is made of its pairs. -/
theorem decodeDeltas_eq (offset : Nat) (pc : UInt64) (sp : Int) :
    decodeDeltas data entry size offset pc sp =
      deltasOf size pc sp (mapPairs data entry size offset pc) := by
  fun_induction decodeDeltas data entry size offset pc sp with
  | case1 _ _ _ first => rw [mapPairs_of_end first, deltasOf]
  | case2 _ _ _ _ _ first stops => rw [mapPairs_of_stop first stops, deltasOf]
  | case3 _ _ _ _ _ first _ second => rw [mapPairs_of_cut first second, deltasOf]
  | case4 _ _ _ _ _ first goes _ _ second _ ih =>
      rw [mapPairs_of_pair first goes second, deltasOf, ih]

section Runs

variable {behind : Nat} {pair : UInt32 × UInt32} {pairs : List (UInt32 × UInt32)}

/-- The pair at an offset, and the offset behind it. -/
def readPair? (data : Bytes) (offset : Nat) : Option ((UInt32 × UInt32) × Nat) :=
  match Varint.read? data offset with
  | none => none
  | some (value, next) =>
    (Varint.read? data next).map fun (step, rest) => ((value, step), rest)

/-- The program counter behind pairs. Their steps add up and count in units of an instruction. -/
def pcBehind (size pc : UInt64) (pairs : List (UInt32 × UInt32)) : UInt64 :=
  pc + UInt64.ofNat (size.toNat * (pairs.map fun pair => pair.2.toNat).sum)

/-- The distance behind pairs. -/
def spBehind (sp : Int) (pairs : List (UInt32 × UInt32)) : Int :=
  sp + (pairs.map fun pair => Varint.unfold pair.1).sum

/-- The pairs of a stack map end where no whole pair follows, or a zero step of the distance with
the program counter behind the entry. -/
def EndsAt (data : Bytes) (entry pc : UInt64) (offset : Nat) : Prop :=
  readPair? data offset = none ∨
    ∃ next, Varint.read? data offset = some (0, next) ∧ entry < pc

/-- These are the pairs of a stack map. They follow each other from the offset on, none of them ends
the map, and the map ends behind the last. -/
structure Pairs (data : Bytes) (entry size : UInt64) (offset : Nat) (pc : UInt64)
    (pairs : List (UInt32 × UInt32)) (behind : Nat) : Prop where
  read : Varint.readMany? (readPair? data) pairs.length offset = some (pairs, behind)
  goesOn : ∀ i pair, pairs[i]? = some pair →
    ¬(pair.1 = 0 ∧ entry < pcBehind size pc (pairs.take i))
  ends : EndsAt data entry (pcBehind size pc pairs) behind

theorem readPair?_eq_some_iff : readPair? data offset = some (pair, rest) ↔
    ∃ next, Varint.read? data offset = some (pair.1, next) ∧
      Varint.read? data next = some (pair.2, rest) := by
  obtain ⟨value, step⟩ := pair
  rw [readPair?]
  cases first : Varint.read? data offset with
  | none => simp
  | some found => simp [Prod.ext_iff, and_comm]

theorem readPair?_append (h : readPair? data offset = some (pair, rest)) (more : Bytes) :
    readPair? (data ++ more) offset = some (pair, rest) := by
  obtain ⟨next, first, second⟩ := readPair?_eq_some_iff.mp h
  exact readPair?_eq_some_iff.mpr
    ⟨next, Varint.read?_append first more, Varint.read?_append second more⟩

@[simp] theorem pcBehind_nil : pcBehind size pc [] = pc := by simp [pcBehind]

theorem pcBehind_cons : pcBehind size pc (pair :: pairs) =
    pcBehind size (pc + pair.2.toUInt64 * size) pairs := by
  have first : UInt64.ofNat (size.toNat * pair.2.toNat) = pair.2.toUInt64 * size := by
    rw [UInt64.ofNat_mul, UInt64.ofNat_toNat, UInt64.ofNat_uInt32ToNat, UInt64.mul_comm]
  rw [pcBehind, List.map_cons, List.sum_cons, Nat.mul_add, UInt64.ofNat_add, first,
    ← UInt64.add_assoc]
  rfl

theorem spBehind_cons (sp : Int) :
    spBehind sp (pair :: pairs) = spBehind (sp + Varint.unfold pair.1) pairs := by
  rw [spBehind, List.map_cons, List.sum_cons, ← Int.add_assoc]
  rfl

theorem pairs_nil_iff :
    Pairs data entry size offset pc [] behind ↔ behind = offset ∧ EndsAt data entry pc offset := by
  constructor
  · rintro ⟨⟨⟩, _, ends⟩
    rw [pcBehind_nil] at ends
    exact ⟨rfl, ends⟩
  · rintro ⟨rfl, ends⟩
    exact ⟨rfl, nofun, by rwa [pcBehind_nil]⟩

theorem pairs_cons_iff : Pairs data entry size offset pc (pair :: pairs) behind ↔
    ∃ rest, readPair? data offset = some (pair, rest) ∧ ¬(pair.1 = 0 ∧ entry < pc) ∧
      Pairs data entry size rest (pc + pair.2.toUInt64 * size) pairs behind := by
  constructor
  · rintro ⟨read, goesOn, ends⟩
    obtain ⟨rest, first, others⟩ := Varint.readMany?_cons_iff.mp read
    refine ⟨rest, first, ?_, others, fun i other mem => ?_, ?_⟩
    · have start := goesOn 0 pair rfl
      rwa [List.take_zero, pcBehind_nil] at start
    · have later := goesOn (i + 1) other mem
      rwa [List.take_succ_cons, pcBehind_cons] at later
    · rwa [pcBehind_cons] at ends
  · rintro ⟨rest, first, start, read, goesOn, ends⟩
    refine ⟨Varint.readMany?_cons_iff.mpr ⟨rest, first, read⟩, fun i other mem => ?_, ?_⟩
    · cases i with
      | zero =>
          cases mem
          rwa [List.take_zero, pcBehind_nil]
      | succ i =>
          rw [List.take_succ_cons, pcBehind_cons]
          exact goesOn i other mem
    · rwa [pcBehind_cons]

theorem Pairs.append (h : Pairs data entry size offset pc pairs behind) (more : Bytes)
    (zero : Varint.read? data behind = some (0, next)) (left : entry < pcBehind size pc pairs) :
    Pairs (data ++ more) entry size offset pc pairs behind where
  read := Varint.readMany?_mono (fun _ _ whole => readPair?_append whole more) h.read
  goesOn := h.goesOn
  ends := .inr ⟨next, Varint.read?_append zero more, left⟩

theorem mapPairs_of_endsAt (h : EndsAt data entry pc offset) :
    mapPairs data entry size offset pc = [] := by
  obtain none | ⟨next, zero, left⟩ := h
  · cases first : Varint.read? data offset with
    | none => exact mapPairs_of_end first
    | some found =>
        obtain ⟨value, next⟩ := found
        rw [readPair?, first] at none
        exact mapPairs_of_cut first (Option.map_eq_none_iff.mp none)
  · exact mapPairs_of_stop zero ⟨rfl, left⟩

/-- The pairs of a stack map are determined by its bytes. -/
theorem Pairs.mapPairs_eq (h : Pairs data entry size offset pc pairs behind) :
    mapPairs data entry size offset pc = pairs := by
  induction pairs generalizing offset pc with
  | nil => exact mapPairs_of_endsAt (pairs_nil_iff.mp h).2
  | cons pair pairs ih =>
      obtain ⟨rest, whole, goesOn, others⟩ := pairs_cons_iff.mp h
      obtain ⟨next, first, second⟩ := readPair?_eq_some_iff.mp whole
      rw [mapPairs_of_pair first goesOn second, ih others]

/-- A reading of a stack map comes to an end. -/
theorem exists_pairs (data : Bytes) (entry size : UInt64) (offset : Nat) (pc : UInt64) :
    ∃ pairs behind, Pairs data entry size offset pc pairs behind := by
  -- What is left of the bytes shrinks with each pair, as in the recursion that lists the pairs.
  fun_induction mapPairs data entry size offset pc with
  | case1 offset pc first =>
      exact ⟨[], offset, pairs_nil_iff.mpr ⟨rfl, .inl (by rw [readPair?, first])⟩⟩
  | case2 offset pc value next first stops =>
      obtain ⟨rfl, left⟩ := stops
      exact ⟨[], offset, pairs_nil_iff.mpr ⟨rfl, .inr ⟨next, first, left⟩⟩⟩
  | case3 offset pc value next first _ second =>
      have cut : readPair? data offset = none := by
        rw [readPair?, first]
        exact Option.map_eq_none_iff.mpr second
      exact ⟨[], offset, pairs_nil_iff.mpr ⟨rfl, .inl cut⟩⟩
  | case4 offset pc value next first goesOn step rest second ih =>
      obtain ⟨pairs, behind, others⟩ := ih
      have whole : readPair? data offset = some ((value, step), rest) :=
        readPair?_eq_some_iff.mpr ⟨next, first, second⟩
      exact ⟨(value, step) :: pairs, behind, pairs_cons_iff.mpr ⟨rest, whole, goesOn, others⟩⟩

/-- Each pair takes two bytes at least. -/
theorem Pairs.two_mul_length_le (h : Pairs data entry size offset pc pairs behind) :
    2 * pairs.length ≤ data.size - offset := by
  induction pairs generalizing offset pc with
  | nil => exact Nat.zero_le _
  | cons pair pairs ih =>
      obtain ⟨rest, whole, _, others⟩ := pairs_cons_iff.mp h
      obtain ⟨next, first, second⟩ := readPair?_eq_some_iff.mp whole
      have here := Varint.read?_bounds first
      have there := Varint.read?_bounds second
      have fewer := ih others
      rw [List.length_cons]
      omega

theorem deltasOf_eq_map (sp : Int) : deltasOf size pc sp pairs = (List.range pairs.length).map
    fun i => ⟨pcBehind size pc (pairs.take i), spBehind sp (pairs.take (i + 1))⟩ := by
  induction pairs generalizing pc sp with
  | nil => rfl
  | cons pair pairs ih =>
      have later (i : Nat) :
          (⟨pcBehind size pc ((pair :: pairs).take (i + 1)),
            spBehind sp ((pair :: pairs).take (i + 1 + 1))⟩ : StackDelta) =
          ⟨pcBehind size (pc + pair.2.toUInt64 * size) (pairs.take i),
            spBehind (sp + Varint.unfold pair.1) (pairs.take (i + 1))⟩ := by
        rw [List.take_succ_cons, List.take_succ_cons, pcBehind_cons, spBehind_cons]
      rw [deltasOf, ih, List.length_cons, List.range_succ_eq_map, List.map_cons, List.map_map]
      congr 1
      · simp [spBehind]
      · exact List.map_congr_left fun i _ => (later i).symm

theorem Pairs.stackMap_eq (h : Pairs data entry unit.toUInt64 offset entry pairs behind) :
    stackMap data offset entry unit = (List.range pairs.length).map
      fun i =>
        ⟨pcBehind unit.toUInt64 entry (pairs.take i), spBehind (-1) (pairs.take (i + 1))⟩ := by
  rw [stackMap, decodeDeltas_eq, h.mapPairs_eq, deltasOf_eq_map]

theorem spBehind_bounds (pairs : List (UInt32 × UInt32)) (sp : Int) :
    sp - 2 ^ 31 * pairs.length ≤ spBehind sp pairs ∧
      spBehind sp pairs ≤ sp + 2 ^ 31 * pairs.length := by
  induction pairs generalizing sp with
  | nil => simp [spBehind]
  | cons pair pairs ih =>
      have step := Varint.unfold_bounds pair.1
      have others := ih (sp + Varint.unfold pair.1)
      rw [spBehind_cons, List.length_cons]
      omega

end Runs

/-- Any bytes are read as a stack map, with no more stack deltas than half the bytes behind the
offset, and in less than 2^33 bytes every distance fits into 64 bits. Some pairs follow each other
from the offset on, up to the first place where a map ends, and each of them gives a stack delta:
its program counter is the entry and the steps before it in units of an instruction, its distance is
-1 and the steps up to its own. Where a zero ends the map, any bytes may follow the block. Unfolding
a step and folding it again gives it back, and so does the opposite for a step of 32 bits. -/
theorem stackMap_eq_sums :
    (∀ (data : Bytes) (offset : Nat) (entry : UInt64) (unit : UInt32),
      2 * (stackMap data offset entry unit).length ≤ data.size - offset ∧
      (data.size - offset < 2 ^ 33 →
        ∀ d ∈ stackMap data offset entry unit, -2 ^ 63 ≤ d.delta ∧ d.delta < 2 ^ 63) ∧
      (∃ pairs behind, Pairs data entry unit.toUInt64 offset entry pairs behind) ∧
      ∀ pairs behind, Pairs data entry unit.toUInt64 offset entry pairs behind →
        (stackMap data offset entry unit = (List.range pairs.length).map fun i =>
          { pc := pcBehind unit.toUInt64 entry (pairs.take i)
            delta := spBehind (-1) (pairs.take (i + 1)) }) ∧
        ∀ next, Varint.read? data behind = some (0, next) →
          entry < pcBehind unit.toUInt64 entry pairs →
            ∀ more, stackMap (data ++ more) offset entry unit = stackMap data offset entry unit) ∧
    (∀ n, Varint.fold (Varint.unfold n) = n) ∧
    ∀ d : Int, -2 ^ 31 ≤ d → d < 2 ^ 31 → Varint.unfold (Varint.fold d) = d := by
  refine ⟨fun data offset entry unit => ?_, Varint.fold_unfold, fun d => Varint.unfold_fold⟩
  obtain ⟨pairs, behind, read⟩ := exists_pairs data entry unit.toUInt64 offset entry
  have few := read.two_mul_length_le
  refine ⟨?_, ?_, ⟨pairs, behind, read⟩, fun pairs behind read => ⟨read.stackMap_eq, ?_⟩⟩
  · rwa [read.stackMap_eq, List.length_map, List.length_range]
  · intro small d mem
    rw [read.stackMap_eq, List.mem_map] at mem
    obtain ⟨i, _, rfl⟩ := mem
    have bounds := spBehind_bounds (pairs.take (i + 1)) (-1)
    have short : (pairs.take (i + 1)).length ≤ pairs.length := List.length_take_le' ..
    simp only
    omega
  · intro next zero left more
    rw [read.stackMap_eq, (read.append more zero left).stackMap_eq]

/-- A zero step that is read, since it stands at the entry, and one that ends the map. -/
theorem stackMap_eq_sums_twoZeros :
    (∃ next, Varint.read? #[0, 1, 16, 2, 0] 4 = some (0, next)) ∧
      0x1000 < pcBehind 4 0x1000 [(0, 1), (16, 2)] ∧
      Pairs #[0, 1, 16, 2, 0] 0x1000 4 0 0x1000 [(0, 1), (16, 2)] 4 ∧
      stackMap #[0, 1, 16, 2, 0] 0 0x1000 4 = [⟨0x1000, -1⟩, ⟨0x1004, 7⟩] ∧
      stackMap (#[0, 1, 16, 2, 0] ++ #[2, 2]) 0 0x1000 4 = [⟨0x1000, -1⟩, ⟨0x1004, 7⟩] ∧
      (∀ d ∈ stackMap #[0, 1, 16, 2, 0] 0 0x1000 4, -2 ^ 63 ≤ d.delta ∧ d.delta < 2 ^ 63) ∧
      Varint.unfold (Varint.fold (-2 ^ 31)) = -2 ^ 31 := by
  obtain ⟨maps, _, folded⟩ := stackMap_eq_sums
  obtain ⟨_, fits, _, sums⟩ := maps #[0, 1, 16, 2, 0] 0 0x1000 4
  have zero : Varint.read? #[0, 1, 16, 2, 0] 4 = some (0, 5) := by decide
  have left : 0x1000 < pcBehind 4 0x1000 [(0, 1), (16, 2)] := by decide
  have read : Pairs #[0, 1, 16, 2, 0] 0x1000 4 0 0x1000 [(0, 1), (16, 2)] 4 :=
    pairs_cons_iff.mpr ⟨2, by decide, by decide,
      pairs_cons_iff.mpr ⟨4, by decide, by decide,
        pairs_nil_iff.mpr ⟨rfl, .inr ⟨5, zero, by decide⟩⟩⟩⟩
  obtain ⟨rows, kept⟩ := sums _ _ read
  have deltas : stackMap #[0, 1, 16, 2, 0] 0 0x1000 4 = [⟨0x1000, -1⟩, ⟨0x1004, 7⟩] :=
    rows.trans (by decide)
  exact ⟨⟨5, zero⟩, left, read, deltas, (kept 5 zero left #[2, 2]).trans deltas, fits (by decide),
    folded _ (by decide) (by decide)⟩

end FunctionTable

end GoInspect
