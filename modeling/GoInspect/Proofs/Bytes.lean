import GoInspect.Bytes
import Mathlib.Algebra.Order.Ring.Int

/-!
# Numbers in blocks of bytes

A little endian number that stands in a block is read back as it was written, and what a read gives
is bounded by the width that was read. Places are natural numbers here, so that a statement about
where bytes stand says nothing about the wrap-around of addresses.
-/

namespace GoInspect

section Words

variable {m n address : UInt64} {i : Nat}

theorem toNat_add (room : m.toNat + n.toNat < 2 ^ 64) : (m + n).toNat = m.toNat + n.toNat := by
  rw [UInt64.toNat_add, Nat.mod_eq_of_lt room]

theorem toNat_add_ofNat (room : address.toNat + i < 2 ^ 64) :
    (address + UInt64.ofNat i).toNat = address.toNat + i := by
  have small : (UInt64.ofNat i).toNat = i :=
    UInt64.toNat_ofNat_of_lt' (show i < 2 ^ 64 by omega)
  rw [UInt64.toNat_add, small, Nat.mod_eq_of_lt room]

theorem add_ofNat_add_ofNat (address : UInt64) (i j : Nat) :
    address + UInt64.ofNat i + UInt64.ofNat j = address + UInt64.ofNat (i + j) := by
  rw [UInt64.add_assoc, UInt64.ofNat_add]

end Words

theorem littleEndian_lt (l : List UInt8) : littleEndian l < 256 ^ l.length := by
  induction l with
  | nil => simp [littleEndian]
  | cons b rest ih =>
      have byte := b.toNat_lt
      simp only [littleEndian, List.length_cons, Nat.pow_succ]
      omega

@[simp] theorem length_littleEndianBytes (width n : Nat) :
    (littleEndianBytes width n).length = width := by
  induction width generalizing n with
  | zero => rfl
  | succ width ih => simp [littleEndianBytes, ih]

/-- Writing a number and reading it back keeps what fits into the width. -/
theorem littleEndian_littleEndianBytes (width n : Nat) :
    littleEndian (littleEndianBytes width n) = n % 256 ^ width := by
  induction width generalizing n with
  | zero => simp [littleEndianBytes, littleEndian, Nat.mod_one]
  | succ width ih =>
      have low : (n.toUInt8).toNat = n % 256 := by simp
      rw [littleEndianBytes, littleEndian, ih, low, Nat.pow_succ, Nat.mul_comm _ 256,
        Nat.mod_mul]

/-- The bytes of a number that is known to fit are those that write it. -/
theorem littleEndian_eq_iff {bytes : List UInt8} {width n : Nat} (wide : bytes.length = width)
    (fits : n < 256 ^ width) : littleEndian bytes = n ↔ bytes = littleEndianBytes width n := by
  constructor
  · rintro rfl
    induction bytes generalizing width with
    | nil =>
        obtain rfl := wide
        rfl
    | cons b rest ih =>
        obtain rfl := wide
        have byte := b.toNat_lt
        have low : (b.toNat + 256 * littleEndian rest).toUInt8 = b :=
          UInt8.toNat_inj.mp (by simp)
        have high : (b.toNat + 256 * littleEndian rest) / 256 = littleEndian rest := by omega
        rw [littleEndian, List.length_cons, littleEndianBytes, low, high,
          ← ih rfl (littleEndian_lt rest)]
  · rintro rfl
    rw [littleEndian_littleEndianBytes, Nat.mod_eq_of_lt fits]

/-- A byte of a little endian number. -/
theorem littleEndian_div_mod {bytes : List UInt8} {i : Nat} {b : UInt8} (mem : bytes[i]? = some b) :
    littleEndian bytes / 256 ^ i % 256 = b.toNat := by
  induction bytes generalizing i with
  | nil => cases mem
  | cons first rest ih =>
      have byte := first.toNat_lt
      cases i with
      | zero =>
          cases mem
          rw [littleEndian, Nat.pow_zero, Nat.div_one, Nat.add_mul_mod_self_left,
            Nat.mod_eq_of_lt byte]
      | succ i =>
          have later := ih mem
          rwa [littleEndian, Nat.pow_succ, Nat.mul_comm _ 256, ← Nat.div_div_eq_div_mul,
            Nat.add_mul_div_left _ _ (by decide), Nat.div_eq_of_lt byte, Nat.zero_add]

/-- A row of pieces of one length. -/
theorem length_flatMap_even {α : Type} {width : Nat} {l : List α} {f : α → List UInt8}
    (even : ∀ a, (f a).length = width) : (l.flatMap f).length = l.length * width := by
  rw [List.length_flatMap, List.map_congr_left fun a _ => even a, List.map_const',
    List.sum_replicate_nat]

namespace Bytes

variable (b : Bytes)

@[simp] theorem toList_slice (start count : Nat) :
    (b.slice start count).toList = (b.toList.drop start).take count := by
  simp [slice, List.extract_eq_take_drop]

/-- The bytes at a place of the block begin with the given ones. -/
def Holds (place : Nat) (bytes : List UInt8) : Prop := bytes <+: b.toList.drop place

instance (place : Nat) (bytes : List UInt8) : Decidable (b.Holds place bytes) :=
  inferInstanceAs (Decidable (bytes <+: b.toList.drop place))

variable {b}

/-- What stands in a block lies inside it. Nothing at all may stand anywhere. -/
theorem Holds.le_size {place : Nat} {bytes : List UInt8} (h : b.Holds place bytes)
    (some : bytes ≠ []) : place + bytes.length ≤ b.size := by
  have shorter := h.length_le
  have positive := List.length_pos_iff.mpr some
  simp only [List.length_drop, Array.length_toList] at shorter
  omega

theorem Holds.take {place : Nat} {bytes : List UInt8} (h : b.Holds place bytes) :
    (b.toList.drop place).take bytes.length = bytes :=
  (List.prefix_iff_eq_take.mp h).symm

/-- What stands at the start of a longer piece, and what stands behind it. -/
theorem Holds.append {place : Nat} {first rest : List UInt8} (h : b.Holds place (first ++ rest)) :
    b.Holds place first ∧ b.Holds (place + first.length) rest := by
  obtain ⟨more, eq⟩ := h
  refine ⟨⟨rest ++ more, by rw [← List.append_assoc, eq]⟩, ⟨more, ?_⟩⟩
  rw [← List.drop_drop, ← eq, List.append_assoc, List.drop_left]

/-- The first of the bytes that stand at a place. -/
theorem Holds.head {place : Nat} {first : UInt8} {rest : List UInt8}
    (h : b.Holds place (first :: rest)) : b[place]? = some first := by
  obtain ⟨more, eq⟩ := h
  rw [← Array.getElem?_toList, ← Nat.add_zero place, ← List.getElem?_drop, ← eq]
  rfl

theorem Holds.tail {place : Nat} {first : UInt8} {rest : List UInt8}
    (h : b.Holds place (first :: rest)) : b.Holds (place + 1) rest := by
  have pieces : b.Holds place ([first] ++ rest) := h
  exact pieces.append.2

theorem holds_cons_iff {place : Nat} {first : UInt8} {rest : List UInt8} :
    b.Holds place (first :: rest) ↔ b[place]? = some first ∧ b.Holds (place + 1) rest := by
  refine ⟨fun h => ⟨h.head, h.tail⟩, fun ⟨head, tail⟩ => ?_⟩
  obtain ⟨inside, rfl⟩ := Array.getElem?_eq_some_iff.mp head
  rw [Holds, List.drop_eq_getElem_cons (Array.length_toList ▸ inside), Array.getElem_toList]
  exact List.cons_prefix_cons.mpr ⟨rfl, tail⟩

theorem holds_iff_slice {place : Nat} {bytes : List UInt8} :
    b.Holds place bytes ↔ (b.slice place bytes.length).toList = bytes := by
  rw [toList_slice, Holds, List.prefix_iff_eq_take, eq_comm]

/-- What stands in a block stays where more bytes follow it. -/
theorem Holds.append_right {place : Nat} {bytes : List UInt8} (h : b.Holds place bytes)
    (more : Bytes) : (b ++ more).Holds place bytes := by
  rw [Holds, Array.toList_append, List.drop_append]
  exact List.IsPrefix.trans h (List.prefix_append _ _)

theorem holds_between (before behind : Bytes) (bytes : List UInt8) :
    (before ++ bytes.toArray ++ behind).Holds before.size bytes := by
  refine ⟨behind.toList, ?_⟩
  rw [Array.toList_append, Array.toList_append, List.append_assoc, ← Array.length_toList,
    List.drop_left]

/-- At most eight bytes are read as they stand. -/
theorem toNat_toWord (few : b.size ≤ 8) : b.toWord.toNat = littleEndian b.toList := by
  have bound := littleEndian_lt b.toList
  have power : 256 ^ b.toList.length ≤ 2 ^ 64 := Nat.pow_le_pow_right (by decide : 0 < 256) few
  rw [toWord, UInt64.toNat_ofNat', Nat.mod_eq_of_lt (Nat.lt_of_lt_of_le bound power)]

/-- A read succeeds exactly inside the block. -/
theorem read?_eq_some_iff {offset value : UInt64} {width : Nat} :
    b.read? offset width = some value ↔
      offset.toNat + width ≤ b.size ∧
        value = UInt64.ofNat (littleEndian ((b.toList.drop offset.toNat).take width)) := by
  rw [read?]
  split
  · next inside => simp [inside, toWord, eq_comm]
  · next outside => simp [outside]

/-- A number of `width` bytes is below the power of 256 with that exponent. -/
theorem read?_lt {offset value : UInt64} {width : Nat} (h : b.read? offset width = some value) :
    value.toNat < 256 ^ width := by
  obtain ⟨inside, rfl⟩ := read?_eq_some_iff.mp h
  have bound := littleEndian_lt ((b.toList.drop offset.toNat).take width)
  have length : ((b.toList.drop offset.toNat).take width).length = width := by
    simp only [List.length_take, List.length_drop, Array.length_toList]
    omega
  rw [length] at bound
  exact Nat.lt_of_le_of_lt (by simp [Nat.mod_le]) bound

/-- A number that stands at a place is read at any address of the place. Addresses may be computed
in any way that gives the place modulo 2^64. -/
theorem Holds.read? {place width n : Nat} (h : b.Holds place (littleEndianBytes width n))
    (positive : 0 < width) (fits : n < 256 ^ width) (small : b.size < 2 ^ 64) :
    b.read? (UInt64.ofNat place) width = some (UInt64.ofNat n) := by
  have length := length_littleEndianBytes width n
  have inside := h.le_size (List.ne_nil_of_length_pos (length.symm ▸ positive))
  have same : (UInt64.ofNat place).toNat = place := by
    rw [UInt64.toNat_ofNat']
    exact Nat.mod_eq_of_lt (by omega)
  have written := h.take
  rw [length] at inside written
  rw [read?_eq_some_iff, same, written, littleEndian_littleEndianBytes, Nat.mod_eq_of_lt fits]
  exact ⟨inside, rfl⟩

/-- A piece of a row of pieces stands behind those before it. -/
theorem Holds.part {α : Type} {place i : Nat} {l : List α} {f : α → List UInt8} {a : α}
    (h : b.Holds place (l.flatMap f)) (mem : l[i]? = some a) :
    b.Holds (place + ((l.take i).flatMap f).length) (f a) := by
  induction l generalizing place i with
  | nil => cases mem
  | cons first rest ih =>
      rw [List.flatMap_cons] at h
      obtain ⟨here, there⟩ := h.append
      cases i with
      | zero =>
          cases mem
          exact here
      | succ i =>
          rw [List.take_succ_cons, List.flatMap_cons, List.length_append, ← Nat.add_assoc]
          exact ih there mem

/-- A piece of a row of pieces of one length. -/
theorem Holds.piece {α : Type} {place width i : Nat} {l : List α} {f : α → List UInt8} {a : α}
    (h : b.Holds place (l.flatMap f)) (even : ∀ a, (f a).length = width) (mem : l[i]? = some a) :
    b.Holds (place + i * width) (f a) := by
  have part := h.part mem
  have inside := (List.getElem?_eq_some_iff.mp mem).1
  rwa [length_flatMap_even even, List.length_take, Nat.min_eq_left (Nat.le_of_lt inside)] at part

/-- Text that ends with a zero byte is read up to there. -/
theorem Holds.cString {place limit : Nat} {t : Text} (h : b.Holds place (t ++ [0]))
    (zeroFree : 0 ∉ t) (short : t.length ≤ limit) :
    Bytes.cString (b.extract place) limit = t := by
  obtain ⟨more, eq⟩ := h
  have bytes : (b.extract place).toList = t ++ (0 :: more) := by
    rw [Array.toList_extract, List.extract_eq_take_drop, ← Array.length_toList,
      ← List.length_drop, List.take_length, ← eq, List.append_assoc]
    rfl
  have plain : ∀ byte ∈ t, (byte != 0) = true := by
    intro byte mem
    rw [bne_iff_ne]
    rintro rfl
    exact zeroFree mem
  rw [Bytes.cString, Text.untilZero]
  rw [toList_slice, List.drop_zero, bytes, List.take_append, List.take_of_length_le short,
    List.takeWhile_append_of_pos plain]
  cases limit - t.length with
  | zero => exact List.append_nil t
  | succ n => exact List.append_nil t

end Bytes

end GoInspect
