import GoInspect.Extract
import GoInspect.Proofs.GoType.Syntax

/-!
# Arrays whose size wraps around

An array is read if its padded elements fill its size, in 64-bit arithmetic. Sizes and lengths come
from the binary, so that the padded size of an element, or that of all elements together, may be
more than a word holds. What passes then is no array of that size. The check is as good as one on
natural numbers exactly where neither of the two wraps around.
-/

namespace GoInspect

section Rounding

variable {n m : UInt64}

/-- Rounding up takes the sum modulo 2^64, and nothing after it wraps around. -/
theorem toNat_roundUp_eq (positive : 0 < m.toNat) :
    (roundUp n m).toNat = (n.toNat + m.toNat - 1) % 2 ^ 64 / m.toNat * m.toNat := by
  have nonzero : m ≠ 0 := by
    rintro rfl
    exact Nat.lt_irrefl 0 positive
  have sum : (n + m - 1).toNat = (n.toNat + m.toNat - 1) % 2 ^ 64 := by
    rw [UInt64.toNat_sub, UInt64.toNat_add]
    simp only [UInt64.toNat_one]
    omega
  have back : (n + m - 1).toNat / m.toNat * m.toNat < 2 ^ 64 :=
    (Nat.div_mul_le_self _ _).trans_lt (UInt64.toNat_lt _)
  rw [roundUp, if_neg nonzero, UInt64.toNat_mul, UInt64.toNat_div, Nat.mod_eq_of_lt back, sum]

theorem toNat_roundUp_of_lt (positive : 0 < m.toNat) (fits : n.toNat + m.toNat - 1 < 2 ^ 64) :
    (roundUp n m).toNat = nextMultiple n.toNat m.toNat := by
  rw [toNat_roundUp_eq positive, Nat.mod_eq_of_lt fits, nextMultiple]

/-- A number that is rounded up to a multiple of a byte gets smaller exactly if the sum wraps
around. -/
theorem le_roundUp_iff_of_lt (positive : 0 < m.toNat) (byte : m.toNat < 256) :
    n.toNat ≤ (roundUp n m).toNat ↔ n.toNat + m.toNat - 1 < 2 ^ 64 := by
  constructor
  · intro le
    by_contra wraps
    -- What is left of the sum is less than the multiple, and the number is close to 2^64.
    have below := Nat.div_mul_le_self ((n.toNat + m.toNat - 1) % 2 ^ 64) m.toNat
    rw [← toNat_roundUp_eq positive] at below
    have word := n.toNat_lt
    omega
  · intro fits
    rw [toNat_roundUp_of_lt positive fits]
    exact le_nextMultiple_of_pos positive _

end Rounding

theorem GoType.align_bounds (t : GoType) : 0 < t.align.toNat ∧ t.align.toNat < 256 := by
  rw [GoType.align, TypeHeader.effectiveAlign]
  split
  · decide
  · next nonzero =>
    rw [UInt8.toNat_toUInt64]
    exact ⟨Nat.pos_of_ne_zero fun zero => nonzero (UInt8.toNat_inj.mp zero), UInt8.toNat_lt _⟩

namespace Extract

variable {read : Reader} {t : GoType} {length total address : UInt64}

/-- Bytes from an element of an array to the next one. -/
def elementStride (t : GoType) : UInt64 := roundUp t.size t.align

/-- The elements of an array have room and fill it, counted without bound. -/
structure FillsArray (t : GoType) (length total : UInt64) : Prop where
  room : t.size.toNat ≤ (elementStride t).toNat
  filled : (elementStride t).toNat * length.toNat = total.toNat

/-- Neither rounding an element up nor repeating it wraps around. -/
structure CountsArray (t : GoType) (length : UInt64) : Prop where
  rounded : t.size.toNat + t.align.toNat - 1 < 2 ^ 64
  repeated : nextMultiple t.size.toNat t.align.toNat * length.toNat < 2 ^ 64

theorem fitsArray_iff : fitsArray t length total address = true ↔
    t.align.toNat ∣ address.toNat ∧
      (elementStride t).toNat * length.toNat % 2 ^ 64 = total.toNat := by
  rw [fitsArray, Bool.and_eq_true, beq_iff_eq, beq_iff_eq, ← UInt64.toNat_inj, ← UInt64.toNat_inj,
    UInt64.toNat_mod, UInt64.toNat_mul, Nat.dvd_iff_mod_eq_zero]
  exact Iff.rfl

theorem fillsArray_iff (passes : (elementStride t).toNat * length.toNat % 2 ^ 64 = total.toNat) :
    FillsArray t length total ↔ CountsArray t length := by
  obtain ⟨positive, byte⟩ := t.align_bounds
  have rounds := le_roundUp_iff_of_lt (n := t.size) positive byte
  constructor
  · rintro ⟨room, filled⟩
    have rounded := rounds.mp room
    refine ⟨rounded, ?_⟩
    rw [← toNat_roundUp_of_lt positive rounded]
    exact filled ▸ total.toNat_lt
  · rintro ⟨rounded, repeated⟩
    refine ⟨rounds.mpr rounded, ?_⟩
    rw [← toNat_roundUp_of_lt positive rounded] at repeated
    exact (Nat.mod_eq_of_lt repeated).symm.trans passes

/-- An array that does not pass is bad at every depth, and one that passes is not at depth zero. -/
theorem exists_arrayOf_iff :
    (∃ depth trace v trace', arrayOf read t length total address depth trace = some (v, trace') ∧
      v.isBad = false) ↔ fitsArray t length total address = true := by
  constructor
  · rintro ⟨depth, trace, v, trace', come, good⟩
    by_contra fails
    rw [arrayOf, if_neg fails] at come
    cases come
    cases good
  · intro fits
    refine ⟨0, {}, .unparsed address certain, {}, ?_, rfl⟩
    rw [arrayOf, if_pos fits]
    rfl

/-- What is said of an array that is not bad: it is aligned, and its padded elements fill its size
modulo 2^64; at depth zero this is all that is asked. The elements have room and fill the size
without wrapping around exactly if rounding one up and repeating it stay below 2^64. -/
theorem arrayOf_fills_iff (read : Reader) (t : GoType) (length total address : UInt64) :
    ((∃ depth trace v trace', arrayOf read t length total address depth trace = some (v, trace') ∧
        v.isBad = false) ↔
      t.align.toNat ∣ address.toNat ∧
        (elementStride t).toNat * length.toNat % 2 ^ 64 = total.toNat) ∧
    ∀ depth trace v trace', arrayOf read t length total address depth trace = some (v, trace') →
      v.isBad = false → (FillsArray t length total ↔ CountsArray t length) := by
  rw [← fitsArray_iff]
  refine ⟨exists_arrayOf_iff, ?_⟩
  intro depth trace v trace' come good
  have fits := exists_arrayOf_iff.mp ⟨depth, trace, v, trace', come, good⟩
  exact fillsArray_iff (fitsArray_iff.mp fits).2

/-- A type of 2^63 bytes that is read from one. -/
def hugeByte : GoType :=
  .mk { size := 0x8000000000000000, align := 1 } ⟨20, 20⟩ (.basic .uint8)

/-- Two elements of 2^63 bytes are an array of no bytes. -/
theorem arrayOf_fills_hugeByte :
    ∃ read v trace', arrayOf read hugeByte 2 0 0x1000 0 {} = some (v, trace') ∧ v.isBad = false ∧
      ¬ FillsArray hugeByte 2 0 := by
  let read : Reader := fun _ _ _ => pure .bad
  refine ⟨read, .unparsed 0x1000 certain, {}, rfl, rfl, ?_⟩
  rw [(arrayOf_fills_iff read hugeByte 2 0 0x1000).2 0 {} _ {} rfl rfl]
  rintro ⟨_, repeated⟩
  exact absurd repeated (by decide)

end Extract

end GoInspect
