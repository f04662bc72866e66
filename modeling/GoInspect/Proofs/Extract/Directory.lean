import GoInspect.Proofs.Extract.Conformance
import GoInspect.Proofs.GoType.Parse

/-!
# Directories that are too long for their bytes

The bytes of a directory are its length times those of a pointer, modulo 2^64. A directory so long
that this wraps around is fetched in part, and the slots behind that part are asked for all the
same. The setting that limits directories decides whether there are such directories.
-/

namespace GoInspect

namespace Extract

open TypeTerm

variable {s : Source} {n : UInt64}

/-- The slots of a directory that its bytes hold. -/
def heldSlots (s : Source) (n : UInt64) : Nat := n.toNat % (2 ^ 64 / s.pointerWidth.toNat)

section Slots

variable (wide : s.pointerWidth = 4 ∨ s.pointerWidth = 8)

include wide

/-- Only whole slots are lost where the bytes wrap around. -/
theorem directoryBytes_toNat :
    (directoryBytes s n).toNat = heldSlots s n * s.pointerWidth.toNat := by
  have parts : 2 ^ 64 = 2 ^ 64 / s.pointerWidth.toNat * s.pointerWidth.toNat := by
    rcases wide with width | width <;> rw [width] <;> rfl
  rw [directoryBytes, heldSlots, UInt64.toNat_mul, UInt32.toNat_toUInt64, ← Nat.mul_mod_mul_right,
    ← parts]

omit wide in
theorem heldSlots_le : heldSlots s n ≤ n.toNat := Nat.mod_le _ _

theorem heldSlots_eq_iff : heldSlots s n = n.toNat ↔ n.toNat * s.pointerWidth.toNat < 2 ^ 64 := by
  have positive : 0 < 2 ^ 64 / s.pointerWidth.toNat := by
    rcases wide with width | width <;> rw [width] <;> decide
  have below : n.toNat < 2 ^ 64 / s.pointerWidth.toNat ↔
      n.toNat * s.pointerWidth.toNat < 2 ^ 64 := by
    rcases wide with width | width <;> rw [width] <;> simp only [UInt32.reduceToNat] <;> omega
  rw [← below, heldSlots, Nat.mod_eq_iff_lt positive.ne']

/-- Slots are read from the bytes up to the first one that they do not hold. -/
theorem length_directoryEntries {data : Bytes} {held : Nat}
    (size : data.size = held * s.pointerWidth.toNat) (small : data.size < 2 ^ 64) (count : Nat)
    {place : Nat} (le : place ≤ held) :
    (directoryEntries data s.pointerWidth count (UInt64.ofNat place)).length =
      min count (held - place) := by
  have positive : 0 < s.pointerWidth.toNat := by
    rcases wide with width | width <;> rw [width] <;> decide
  induction count generalizing place with
  | zero => simp [directoryEntries]
  | succ count ih =>
      have start : (UInt64.ofNat place * s.pointerWidth.toUInt64).toNat =
          place * s.pointerWidth.toNat := by
        have bound : place * s.pointerWidth.toNat < 2 ^ 64 :=
          Nat.lt_of_le_of_lt (Nat.mul_le_mul_right _ le) (size ▸ small)
        rw [ofNat_toNat_word wide, ← UInt64.ofNat_mul, UInt64.toNat_ofNat', Nat.mod_eq_of_lt bound]
      have next : UInt64.ofNat place + 1 = UInt64.ofNat (place + 1) := (UInt64.ofNat_add ..).symm
      rw [directoryEntries]
      cases read :
        data.read? (UInt64.ofNat place * s.pointerWidth.toUInt64) s.pointerWidth.toNat with
      | none =>
          have outside : ¬place + 1 ≤ held := by
            intro more
            have inside := Nat.mul_le_mul_right s.pointerWidth.toNat more
            rw [Nat.succ_mul, ← start, ← size] at inside
            rw [Bytes.read?_eq_some_iff.mpr ⟨inside, rfl⟩] at read
            cases read
          simp only [List.length_nil]
          omega
      | some address =>
          have inside := (Bytes.read?_eq_some_iff.mp read).1
          rw [start, size, ← Nat.succ_mul] at inside
          have more : place + 1 ≤ held := Nat.le_of_mul_le_mul_right inside positive
          simp only [List.length_cons]
          rw [next, ih more]
          omega

end Slots

section Directory

variable {base : UInt64} {data : Bytes}

variable (wide : s.pointerWidth = 4 ∨ s.pointerWidth = 8)

include wide

theorem size_directory (exact : s.memory.Exact)
    (fetched : s.readBytes? base (directoryBytes s n) = some data) :
    data.size = heldSlots s n * s.pointerWidth.toNat :=
  (Source.readBytes?_size exact fetched).trans (directoryBytes_toNat wide)

/-- The slots of a directory that was fetched are read as far as they are held. -/
theorem length_fetched (exact : s.memory.Exact)
    (fetched : s.readBytes? base (directoryBytes s n) = some data) :
    (directoryEntries data s.pointerWidth n.toNat 0).length = heldSlots s n := by
  have size := size_directory wide exact fetched
  have small : data.size < 2 ^ 64 := by
    rw [Source.readBytes?_size exact fetched]
    exact (directoryBytes s n).toNat_lt
  have all := length_directoryEntries wide size small n.toNat (Nat.zero_le _)
  rw [Nat.sub_zero, Nat.min_eq_right heldSlots_le] at all
  exact all

/-- All slots stand in the bytes that were fetched for a directory, or these bytes wrapped
around. -/
theorem forall_slots_iff (exact : s.memory.Exact)
    (fetched : s.readBytes? base (directoryBytes s n) = some data) :
    (∀ i < n.toNat, i * s.pointerWidth.toNat + s.pointerWidth.toNat ≤ data.size) ↔
      n.toNat * s.pointerWidth.toNat < 2 ^ 64 := by
  have positive := (isAlignment_word wide).pos
  rw [size_directory wide exact fetched, ← heldSlots_eq_iff wide]
  constructor
  · intro inside
    by_contra fewer
    -- The first slot that is not held begins where the bytes end.
    have first := inside (heldSlots s n) (Nat.lt_of_le_of_ne heldSlots_le fewer)
    omega
  · intro same i below
    rw [same, ← Nat.succ_mul]
    exact Nat.mul_le_mul_right _ below

/-- A directory whose bytes wrap around has no entries, whatever its tables hold. -/
theorem ensures_directory (exact : s.memory.Exact)
    (wraps : 2 ^ 64 ≤ n.toNat * s.pointerWidth.toNat) (read : Reader) (type : GoType)
    (depth : UInt32) : Ensures (directory s read type depth base n) (· = none) := by
  unfold directory
  cases fetched : s.readBytes? base (directoryBytes s n) with
  | none => exact ensures_pure rfl
  | some data =>
      have fewer : heldSlots s n ≠ n.toNat :=
        fun same => Nat.not_lt.mpr wraps ((heldSlots_eq_iff wide).mp same)
      refine .after fun found => ?_
      rw [length_fetched wide exact fetched, if_neg fewer]
      exact ensures_pure rfl

end Directory

section Settings

/-- The bytes of no directory wrap around exactly if pointers are narrow or directories are limited
to fewer than 2^61 slots. -/
theorem forall_lengths_iff (wide : s.pointerWidth = 4 ∨ s.pointerWidth = 8) :
    (∀ length : UInt64, length.toNat < 256 ^ s.pointerWidth.toNat →
      (min length s.settings.swissDirectoryCap).toNat * s.pointerWidth.toNat < 2 ^ 64) ↔
      s.pointerWidth = 4 ∨ s.settings.swissDirectoryCap.toNat < 2 ^ 61 := by
  simp only [toNat_min]
  have cap := s.settings.swissDirectoryCap.toNat_lt
  rcases wide with width | width
  · simp only [width, true_or, iff_true, UInt32.reduceToNat]
    intro length fits
    omega
  · have other : ¬(8 : UInt32) = 4 := by decide
    simp only [width, other, false_or, UInt32.reduceToNat]
    constructor
    · intro all
      have longest := all 0xFFFFFFFFFFFFFFFF (by decide)
      simp only [UInt64.reduceToNat] at longest
      omega
    · intro few length _
      omega

end Settings

/-- Every slot of a directory is read from the bytes that were fetched, unless its length times the
bytes of a pointer is no machine word. Only then are slots asked for that are not held, and nothing
is found in the directory. The setting that limits directories excludes it exactly where pointers
have four bytes or the limit is below 2^61. -/
theorem directory_slots_iff (wide : s.pointerWidth = 4 ∨ s.pointerWidth = 8)
    (exact : s.memory.Exact) :
    (∀ base n data, s.readBytes? base (directoryBytes s n) = some data →
      ((∀ i < n.toNat, i * s.pointerWidth.toNat + s.pointerWidth.toNat ≤ data.size) ↔
        n.toNat * s.pointerWidth.toNat < 2 ^ 64) ∧
      (data.size = n.toNat * s.pointerWidth.toNat ↔ n.toNat * s.pointerWidth.toNat < 2 ^ 64) ∧
      ((directoryEntries data s.pointerWidth n.toNat 0).length = n.toNat ↔
        n.toNat * s.pointerWidth.toNat < 2 ^ 64)) ∧
    (∀ base n, 2 ^ 64 ≤ n.toNat * s.pointerWidth.toNat → ∀ read type depth,
      Ensures (directory s read type depth base n) (· = none)) ∧
    ((∀ length : UInt64, length.toNat < 256 ^ s.pointerWidth.toNat →
      (min length s.settings.swissDirectoryCap).toNat * s.pointerWidth.toNat < 2 ^ 64) ↔
        s.pointerWidth = 4 ∨ s.settings.swissDirectoryCap.toNat < 2 ^ 61) := by
  refine ⟨fun base n data fetched => ⟨forall_slots_iff wide exact fetched, ?_, ?_⟩,
    fun _ _ wraps => ensures_directory wide exact wraps, forall_lengths_iff wide⟩
  · rw [size_directory wide exact fetched, Nat.mul_left_inj (isAlignment_word wide).pos.ne',
      heldSlots_eq_iff wide]
  · rw [length_fetched wide exact fetched, heldSlots_eq_iff wide]

/-- Eight bytes of memory, and directories of any length. -/
def shortMemory : Source where
  memory := (MappedMemory.map ⟨∅, 0⟩ 0x1000 #[0, 0, 0, 0, 0, 0, 0, 0]).toMemory
  pointerWidth := 8
  graph := .empty
  settings := { swissDirectoryCap := 0xFFFFFFFFFFFFFFFF }

/-- A directory of 2^61 + 1 slots is fetched as eight bytes, and its second slot is asked for. -/
theorem directory_slots_shortMemory :
    (shortMemory.pointerWidth = 4 ∨ shortMemory.pointerWidth = 8) ∧ shortMemory.memory.Exact ∧
    ∃ data,
      shortMemory.readBytes? 0x1000 (directoryBytes shortMemory 0x2000000000000001) = some data ∧
      data.size = 8 ∧ ¬∀ i < 0x2000000000000001, i * 8 + 8 ≤ data.size := by
  have wide : shortMemory.pointerWidth = 4 ∨ shortMemory.pointerWidth = 8 := .inr rfl
  have exact : shortMemory.memory.Exact := MappedMemory.exact _
  have fetched : shortMemory.readBytes? 0x1000 (directoryBytes shortMemory 0x2000000000000001) =
      some #[0, 0, 0, 0, 0, 0, 0, 0] := by decide +kernel
  have slots := ((directory_slots_iff wide exact).1 _ _ _ fetched).1
  exact ⟨wide, exact, _, fetched, rfl, fun inside => absurd (slots.mp inside) (by decide)⟩

end Extract

end GoInspect
