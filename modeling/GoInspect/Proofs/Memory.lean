import GoInspect.Memory
import GoInspect.Proofs.Bytes

/-!
# What reads of memory give

A read is a contract with what stands behind the memory: it gives the bytes that were asked for or
an error. Numbers that were read are then as wide as was asked.
-/

namespace GoInspect

namespace Memory

variable {m : Memory}

/-- Reads give exactly as many bytes as were asked for. -/
def Exact (m : Memory) : Prop :=
  ∀ address length bytes, m.readBytes address length = .ok bytes → bytes.size = length.toNat

/-- A width is refused unless it is one to eight bytes. -/
theorem width_allowed_iff {width : UInt32} :
    ¬(width = 0 ∨ 8 < width) ↔ 0 < width.toNat ∧ width.toNat ≤ 8 := by
  rw [not_or, ← UInt32.toNat_inj, UInt32.lt_iff_toNat_lt, Nat.not_lt, Nat.pos_iff_ne_zero]
  rfl

/-- Numbers have one to eight bytes. -/
theorem width_of_readUnsigned {address value : UInt64} {width : UInt32}
    (h : m.readUnsigned address width = .ok value) :
    0 < width.toNat ∧ width.toNat ≤ 8 := by
  rw [readUnsigned] at h
  split at h
  · cases h
  · next allowed => exact width_allowed_iff.mp allowed

/-- A number of one to eight bytes is read exactly if as many bytes are. -/
theorem readUnsigned_eq_ok_iff {address value : UInt64} {width : UInt32} (some : 0 < width.toNat)
    (few : width.toNat ≤ 8) :
    m.readUnsigned address width = .ok value ↔
      ∃ bytes, m.readBytes address width.toUInt64 = .ok bytes ∧ bytes.size = width.toNat ∧
        bytes.toWord = value := by
  rw [readUnsigned, if_neg (width_allowed_iff.mpr ⟨some, few⟩)]
  cases m.readBytes address width.toUInt64 with
  | error e => simp
  | ok bytes => by_cases size : bytes.size = width.toNat <;> simp [size]

/-- A number that was read has no more bytes than were asked for. -/
theorem readUnsigned_lt {address value : UInt64} {width : UInt32}
    (h : m.readUnsigned address width = .ok value) : value.toNat < 256 ^ width.toNat := by
  obtain ⟨some, few⟩ := width_of_readUnsigned h
  obtain ⟨bytes, _, size, rfl⟩ := (readUnsigned_eq_ok_iff some few).mp h
  have bound := littleEndian_lt bytes.toList
  rwa [Array.length_toList, size, ← Bytes.toNat_toWord (size ▸ few)] at bound

/-- Reads inside the stretch at an address succeed and give the bytes of a block. -/
def Shows (m : Memory) (address : UInt64) (block : Bytes) : Prop :=
  ∀ (place : Nat) (length : UInt64), 0 < length.toNat → place + length.toNat ≤ block.size →
    m.readBytes (address + UInt64.ofNat place) length = .ok (block.slice place length.toNat)

/-- A number that stands in a block is read where the block is shown. -/
theorem Shows.readUnsigned {address : UInt64} {block : Bytes} (shown : m.Shows address block)
    {place n : Nat} {width : UInt32} (some : 0 < width.toNat) (few : width.toNat ≤ 8)
    (holds : block.Holds place (littleEndianBytes width.toNat n))
    (fits : n < 256 ^ width.toNat) :
    m.readUnsigned (address + UInt64.ofNat place) width = .ok (UInt64.ofNat n) := by
  have length := length_littleEndianBytes width.toNat n
  have inside := holds.le_size (List.ne_nil_of_length_pos (length.symm ▸ some))
  have written := holds.take
  rw [length] at inside written
  have bytes : (block.slice place width.toNat).toList = littleEndianBytes width.toNat n := by
    rw [Bytes.toList_slice, written]
  have size : (block.slice place width.toNat).size = width.toNat := by
    rw [← Array.length_toList, bytes, length]
  have word : (block.slice place width.toNat).toWord = UInt64.ofNat n := by
    rw [Bytes.toWord, bytes, littleEndian_littleEndianBytes, Nat.mod_eq_of_lt fits]
  exact (readUnsigned_eq_ok_iff some few).mpr
    ⟨_, shown place width.toUInt64 some inside, size, word⟩

end Memory

/-- Memory made of regions never gives less than was asked for. -/
theorem MappedMemory.exact (m : MappedMemory) : m.toMemory.Exact := by
  intro address length bytes h
  rw [MappedMemory.toMemory] at h
  dsimp only at h
  split at h
  · cases h
  · split at h
    · next inside =>
      cases h
      simp only [Bytes.slice, Array.size_extract]
      omega
    · cases h

/-- Memory of one region gives the region for every address in it. -/
theorem MappedMemory.region?_map {base address bias : UInt64} {data : Bytes}
    (start : base ≤ address)
    (inside : (address - base).toNat < data.size) :
    (MappedMemory.map ⟨∅, bias⟩ base data).region? address = some (base, data) := by
  have found : ((∅ : Std.TreeMap UInt64 Bytes).insert base data).getEntryLE? address =
      some (base, data) := by
    show (match compare address base with
      | .lt => none
      | .eq => some (base, data)
      | .gt => some (base, data)) = some (base, data)
    cases order : compare address base with
    | lt => exact absurd (Std.compare_eq_lt.mp order) (UInt64.not_lt.mpr start)
    | eq => rfl
    | gt => rfl
  rw [MappedMemory.region?, MappedMemory.map, found]
  simp [Option.filter, inside]

/-- Memory of one region shows the region. -/
theorem MappedMemory.shows_map {base bias : UInt64} {data : Bytes}
    (inside : base.toNat + data.size ≤ 2 ^ 64) :
    (MappedMemory.map ⟨∅, bias⟩ base data).toMemory.Shows base data := by
  intro place length some part
  have small := base.toNat_lt
  have same : (UInt64.ofNat place).toNat = place := by
    rw [UInt64.toNat_ofNat', Nat.mod_eq_of_lt (by omega)]
  have start : base ≤ base + UInt64.ofNat place := by
    rw [UInt64.le_iff_toNat_le, UInt64.toNat_add, same, Nat.mod_eq_of_lt (by omega)]
    exact Nat.le_add_right _ _
  have offset : (base + UInt64.ofNat place - base).toNat = place := by
    rw [UInt64.add_comm, UInt64.add_sub_cancel, same]
  have found := @MappedMemory.region?_map base _ bias data start (by rw [offset]; omega)
  rw [MappedMemory.toMemory]
  dsimp only
  rw [found]
  dsimp only
  rw [offset, if_pos part]

/-- Pointers of a width reach the addresses below a power of 256. -/
theorem fitsAddressSpace_iff {address length : UInt64} {p : UInt32} (some : 0 < p.toNat)
    (few : p.toNat ≤ 8) :
    fitsAddressSpace address length p ↔
      0 < length.toNat ∧ address.toNat + length.toNat ≤ 2 ^ (8 * p.toNat) := by
  have bound := address.toNat_lt
  have lengthBound := length.toNat_lt
  rw [fitsAddressSpace]
  by_cases empty : length = 0
  · rw [if_pos empty, empty]
    simp
  have nonempty : 0 < length.toNat := by
    apply Nat.pos_of_ne_zero
    intro zero
    exact empty (UInt64.toNat_inj.mp zero)
  rw [if_neg empty]
  by_cases full : 8 ≤ p
  · have eight : p.toNat = 8 := Nat.le_antisymm few (UInt32.le_iff_toNat_le.mp full)
    have last : (length - 1).toNat = length.toNat - 1 :=
      UInt64.toNat_sub_of_le _ _ (UInt64.le_iff_toNat_le.mpr nonempty)
    have rest : (0xFFFFFFFFFFFFFFFF - (length - 1)).toNat = 2 ^ 64 - length.toNat := by
      rw [UInt64.toNat_sub_of_le _ _ (UInt64.le_iff_toNat_le.mpr ?_), last]
      · show 2 ^ 64 - 1 - (length.toNat - 1) = _
        omega
      · show (length - 1).toNat ≤ 2 ^ 64 - 1
        omega
    rw [if_pos full, decide_eq_true_iff, UInt64.le_iff_toNat_le, rest, eight]
    omega
  · have narrow : p.toNat < 8 := by
      rw [UInt32.le_iff_toNat_le] at full
      exact Nat.lt_of_not_le full
    have bits : (8 * p).toUInt64.toNat = 8 * p.toNat := by
      show (8 * p).toNat = _
      rw [UInt32.toNat_mul]
      exact Nat.mod_eq_of_lt (show 8 * p.toNat < 2 ^ 32 by omega)
    have limit : ((1 : UInt64) <<< (8 * p).toUInt64).toNat = 2 ^ (8 * p.toNat) := by
      have below : 2 ^ (8 * p.toNat) < 2 ^ 64 := Nat.pow_lt_pow_right (by decide) (by omega)
      rw [UInt64.toNat_shiftLeft, bits, Nat.mod_eq_of_lt (by omega : 8 * p.toNat < 64),
        Nat.shiftLeft_eq]
      exact (congrArg (· % 2 ^ 64) (Nat.one_mul _)).trans (Nat.mod_eq_of_lt below)
    rw [if_neg full, Bool.and_eq_true, decide_eq_true_iff, decide_eq_true_iff,
      UInt64.le_iff_toNat_le, UInt64.le_iff_toNat_le, limit]
    constructor
    · rintro ⟨short, inside⟩
      rw [UInt64.toNat_sub_of_le _ _ (UInt64.le_iff_toNat_le.mpr (limit.symm ▸ short)), limit]
        at inside
      omega
    · rintro ⟨_, inside⟩
      have short : length.toNat ≤ 2 ^ (8 * p.toNat) := by omega
      rw [UInt64.toNat_sub_of_le _ _ (UInt64.le_iff_toNat_le.mpr (limit.symm ▸ short)), limit]
      omega

/-- Pointers of any width: more than eight bytes reach no further than eight, and without any byte
there is the address zero alone. -/
theorem fitsAddressSpace_iff_min {address length : UInt64} {p : UInt32} :
    fitsAddressSpace address length p ↔
      0 < length.toNat ∧ address.toNat + length.toNat ≤ 2 ^ (8 * min p.toNat 8) := by
  obtain zero | some := Nat.eq_zero_or_pos p.toNat
  · obtain rfl : p = 0 := UInt32.toNat_inj.mp zero
    have limit : fitsAddressSpace address length 0 ↔
        length ≠ 0 ∧ length ≤ 1 ∧ address ≤ 1 - length := by
      by_cases empty : length = 0 <;> simp [fitsAddressSpace, empty]
    have byte : length ≠ 0 ∧ length ≤ 1 ↔ length = 1 := by
      simp only [ne_eq, ← UInt64.toNat_inj, UInt64.le_iff_toNat_le, UInt64.reduceToNat]
      omega
    rw [limit, ← and_assoc, byte, zero, show 2 ^ (8 * min 0 8) = 1 from rfl]
    constructor
    · rintro ⟨rfl, inside⟩
      have first := UInt64.le_iff_toNat_le.mp inside
      exact ⟨by decide, Nat.add_le_add_right first 1⟩
    · rintro ⟨nonempty, inside⟩
      have one : length.toNat = 1 := by omega
      obtain rfl : length = 1 := UInt64.toNat_inj.mp one
      exact ⟨rfl, UInt64.le_iff_toNat_le.mpr (Nat.le_of_add_le_add_right inside)⟩
  obtain few | many := Nat.le_total p.toNat 8
  · rw [fitsAddressSpace_iff some few, Nat.min_eq_left few]
  · have same : fitsAddressSpace address length p = fitsAddressSpace address length 8 := by
      rw [fitsAddressSpace, fitsAddressSpace, if_pos (by decide : (8 : UInt32) ≤ 8),
        if_pos (UInt32.le_iff_toNat_le.mpr many : 8 ≤ p)]
    rw [same, fitsAddressSpace_iff (by decide) (by decide), Nat.min_eq_right many]
    rfl

end GoInspect
