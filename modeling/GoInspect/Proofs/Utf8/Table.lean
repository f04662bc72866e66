import GoInspect.Proofs.Utf8
import Mathlib.Data.List.Forall2

/-!
# Well-formed byte sequences

Unicode lists the well-formed byte sequences in its table 3-7, one row for each form, with a range
for every byte. The ranges leave out what is longer than its number needs, the surrogates and what
is above the last character. The sequences of the table are exactly the encodings of the characters,
and therefore lenient decoding leaves a text as it is exactly if it is made of them.
-/

namespace GoInspect

namespace CodePoint

variable {c : CodePoint}

theorem isScalar_iff :
    c.isScalar = true ↔ c.toNat ≤ 0x10FFFF ∧ (c.toNat < 0xD800 ∨ 0xDFFF < c.toNat) := by
  rw [isScalar, isSurrogate, Bool.and_eq_true, Bool.not_eq_true', Bool.and_eq_false_iff,
    decide_eq_true_iff, decide_eq_false_iff_not, decide_eq_false_iff_not, UInt32.not_le,
    UInt32.not_le]
  exact Iff.rfl

def byteNumbers (n : Nat) : List Nat :=
  if n < 0x80 then [n]
  else if n < 0x800 then [0xC0 + n / 2 ^ 6, 0x80 + n % 2 ^ 6]
  else if n < 0x10000 then [0xE0 + n / 2 ^ 12, 0x80 + n / 2 ^ 6 % 2 ^ 6, 0x80 + n % 2 ^ 6]
  else
    [0xF0 + n / 2 ^ 18, 0x80 + n / 2 ^ 12 % 2 ^ 6, 0x80 + n / 2 ^ 6 % 2 ^ 6, 0x80 + n % 2 ^ 6]

end CodePoint

namespace Utf8

open CodePoint (leadBits continuation encode encodeAll byteNumbers)

/-- Bits that are put below others are added to them. -/
theorem toNat_or {high low : UInt8} {k n : Nat} (above : high.toNat = 2 ^ k * n)
    (below : low.toNat < 2 ^ k) : (high ||| low).toNat = high.toNat + low.toNat := by
  rw [UInt8.toNat_or, above, Nat.two_pow_add_eq_or_of_lt below]

theorem toNat_lead_or {c bits : CodePoint} {high : UInt8} {j k n : Nat}
    (place : bits.toNat % 32 = j) (above : high.toNat = 2 ^ k * n) (fits : c.toNat / 2 ^ j < 2 ^ k)
    (byte : 2 ^ k ≤ 256) : (high ||| leadBits c bits).toNat = high.toNat + c.toNat / 2 ^ j := by
  obtain ⟨below, written⟩ := toNat_lead place fits byte
  rw [toNat_or above below, ← written, UInt8.toNat_toUInt32]

theorem toNat_continuation_eq (c bits : CodePoint) {k : Nat}
    (place : bits.toNat % 32 = k) :
    (continuation c bits).toNat = 0x80 + c.toNat / 2 ^ k % 2 ^ 6 := by
  have six : (leadBits c bits &&& 0x3F).toNat = c.toNat / 2 ^ k % 2 ^ 6 := by
    rw [UInt8.toNat_and, CodePoint.toNat_leadBits c place]
    exact (Nat.and_two_pow_sub_one_eq_mod _ 6).trans (Nat.mod_mod_of_dvd _ (by decide))
  have below : (leadBits c bits &&& 0x3F).toNat < 2 ^ 6 := by
    rw [six]
    exact Nat.mod_lt _ (by decide)
  exact (toNat_or (n := 2) rfl below).trans (congrArg (0x80 + ·) six)

/-- The bytes of a character in numbers. -/
theorem map_toNat_encode {c : CodePoint} (last : c.toNat ≤ 0x10FFFF) :
    (encode c).map UInt8.toNat = byteNumbers c.toNat := by
  rw [encode, byteNumbers]
  by_cases one : c < 0x80
  · have short : c.toNat < 0x80 := UInt32.lt_iff_toNat_lt.mp one
    rw [if_pos one, if_pos short, List.map_singleton, (ascii one).1]
  have long : ¬ c.toNat < 0x80 := fun short => one (UInt32.lt_iff_toNat_lt.mpr short)
  rw [if_neg one, if_neg long]
  by_cases two : c < 0x800
  · have short : c.toNat < 0x800 := UInt32.lt_iff_toNat_lt.mp two
    have lead : (0xC0 ||| leadBits c 6).toNat = 0xC0 + c.toNat / 2 ^ 6 :=
      toNat_lead_or (k := 5) (n := 6) rfl rfl (by omega) (by decide)
    rw [if_pos two, if_pos short, List.map_cons, List.map_singleton, lead,
      toNat_continuation_eq c 0 (k := 0) rfl, Nat.pow_zero, Nat.div_one]
  have long : ¬ c.toNat < 0x800 := fun short => two (UInt32.lt_iff_toNat_lt.mpr short)
  rw [if_neg two, if_neg long]
  by_cases three : c < 0x10000
  · have short : c.toNat < 0x10000 := UInt32.lt_iff_toNat_lt.mp three
    have lead : (0xE0 ||| leadBits c 12).toNat = 0xE0 + c.toNat / 2 ^ 12 :=
      toNat_lead_or (k := 4) (n := 14) rfl rfl (by omega) (by decide)
    rw [if_pos three, if_pos short, List.map_cons, List.map_cons, List.map_singleton, lead,
      toNat_continuation_eq c 6 (k := 6) rfl, toNat_continuation_eq c 0 (k := 0) rfl, Nat.pow_zero,
      Nat.div_one]
  · have long : ¬ c.toNat < 0x10000 := fun short => three (UInt32.lt_iff_toNat_lt.mpr short)
    have lead : (0xF0 ||| leadBits c 18).toNat = 0xF0 + c.toNat / 2 ^ 18 :=
      toNat_lead_or (k := 3) (n := 30) rfl rfl (by omega) (by decide)
    rw [if_neg three, if_neg long, List.map_cons, List.map_cons, List.map_cons, List.map_singleton,
      lead, toNat_continuation_eq c 12 (k := 12) rfl, toNat_continuation_eq c 6 (k := 6) rfl,
      toNat_continuation_eq c 0 (k := 0) rfl, Nat.pow_zero, Nat.div_one]

structure ByteRange where
  /-- The number of the first byte. -/
  first : Nat
  /-- The number of the last byte. -/
  last : Nat
  deriving DecidableEq, Repr

def ByteRange.Contains (r : ByteRange) (b : UInt8) : Prop := r.first ≤ b.toNat ∧ b.toNat ≤ r.last

theorem ByteRange.contains_iff {r : ByteRange} {b : UInt8} :
    r.Contains b ↔ r.first ≤ b.toNat ∧ b.toNat ≤ r.last := Iff.rfl

/-- The range of the bytes that continue a sequence, where nothing narrows it. -/
def anyTail : ByteRange := ⟨0x80, 0xBF⟩

/-- The forms of well-formed byte sequences. -/
def table : List (List ByteRange) :=
  [[⟨0x00, 0x7F⟩],
    [⟨0xC2, 0xDF⟩, anyTail],
    [⟨0xE0, 0xE0⟩, ⟨0xA0, 0xBF⟩, anyTail],
    [⟨0xE1, 0xEC⟩, anyTail, anyTail],
    [⟨0xED, 0xED⟩, ⟨0x80, 0x9F⟩, anyTail],
    [⟨0xEE, 0xEF⟩, anyTail, anyTail],
    [⟨0xF0, 0xF0⟩, ⟨0x90, 0xBF⟩, anyTail, anyTail],
    [⟨0xF1, 0xF3⟩, anyTail, anyTail, anyTail],
    [⟨0xF4, 0xF4⟩, ⟨0x80, 0x8F⟩, anyTail, anyTail]]

/-- The bytes have one of the forms. -/
def IsSequence (t : Text) : Prop := ∃ row ∈ table, List.Forall₂ ByteRange.Contains row t

/-- Text that is made of well-formed byte sequences. -/
def IsUtf8 (t : Text) : Prop := ∃ ts : List Text, (∀ s ∈ ts, IsSequence s) ∧ ts.flatten = t

section

variable {n : Nat} {t : Text} {a b d e : UInt8}

theorem exists_encode (last : n ≤ 0x10FFFF) (scalar : n < 0xD800 ∨ 0xDFFF < n)
    (numbers : byteNumbers n = t.map UInt8.toNat) :
    ∃ c : CodePoint, c.isScalar = true ∧ encode c = t := by
  have small : (UInt32.ofNat n).toNat = n :=
    UInt32.toNat_ofNat_of_lt' (show n < 2 ^ 32 by omega)
  refine ⟨UInt32.ofNat n, ?_, ?_⟩
  · rw [CodePoint.isScalar_iff, small]
    exact ⟨last, scalar⟩
  · apply List.map_injective_iff.mpr fun _ _ => UInt8.toNat_inj.mp
    rw [map_toNat_encode (by omega), small, numbers]

theorem exists_encode_two (first : 0xC2 ≤ a.toNat ∧ a.toNat ≤ 0xDF)
    (second : 0x80 ≤ b.toNat ∧ b.toNat ≤ 0xBF) :
    ∃ c : CodePoint, c.isScalar = true ∧ encode c = [a, b] := by
  apply exists_encode (n := (a.toNat - 0xC0) * 2 ^ 6 + (b.toNat - 0x80)) (by omega) (by omega)
  rw [byteNumbers, if_neg (by omega), if_pos (by omega)]
  simp only [List.map_cons, List.map_nil, List.cons.injEq, and_true]
  omega

theorem exists_encode_three (first : 0xE0 ≤ a.toNat ∧ a.toNat ≤ 0xEF)
    (second : 0x80 ≤ b.toNat ∧ b.toNat ≤ 0xBF) (third : 0x80 ≤ d.toNat ∧ d.toNat ≤ 0xBF)
    (least : a.toNat = 0xE0 → 0xA0 ≤ b.toNat) (scalar : a.toNat = 0xED → b.toNat ≤ 0x9F) :
    ∃ c : CodePoint, c.isScalar = true ∧ encode c = [a, b, d] := by
  apply exists_encode
    (n := (a.toNat - 0xE0) * 2 ^ 12 + (b.toNat - 0x80) * 2 ^ 6 + (d.toNat - 0x80))
    (by omega) (by omega)
  rw [byteNumbers, if_neg (by omega), if_neg (by omega), if_pos (by omega)]
  simp only [List.map_cons, List.map_nil, List.cons.injEq, and_true]
  omega

theorem exists_encode_four (first : 0xF0 ≤ a.toNat ∧ a.toNat ≤ 0xF4)
    (second : 0x80 ≤ b.toNat ∧ b.toNat ≤ 0xBF) (third : 0x80 ≤ d.toNat ∧ d.toNat ≤ 0xBF)
    (fourth : 0x80 ≤ e.toNat ∧ e.toNat ≤ 0xBF) (least : a.toNat = 0xF0 → 0x90 ≤ b.toNat)
    (last : a.toNat = 0xF4 → b.toNat ≤ 0x8F) :
    ∃ c : CodePoint, c.isScalar = true ∧ encode c = [a, b, d, e] := by
  apply exists_encode (n := (a.toNat - 0xF0) * 2 ^ 18 + (b.toNat - 0x80) * 2 ^ 12 +
    (d.toNat - 0x80) * 2 ^ 6 + (e.toNat - 0x80)) (by omega) (by omega)
  rw [byteNumbers, if_neg (by omega), if_neg (by omega), if_neg (by omega)]
  simp only [List.map_cons, List.map_nil, List.cons.injEq, and_true]
  omega

/-- The sequences of the table are encodings. -/
theorem IsSequence.exists_encode (h : IsSequence t) :
    ∃ c : CodePoint, c.isScalar = true ∧ encode c = t := by
  obtain ⟨row, listed, holds⟩ := h
  simp only [table, List.mem_cons, List.not_mem_nil, or_false] at listed
  rcases listed with rfl | rfl | rfl | rfl | rfl | rfl | rfl | rfl | rfl
  · obtain _ | @⟨_, a, _, _, ⟨_, high⟩, ⟨⟩⟩ := holds
    have short : a.toNat < 0x80 := Nat.lt_succ_of_le high
    apply Utf8.exists_encode (n := a.toNat) (by omega) (by omega)
    rw [byteNumbers, if_pos short, List.map_singleton]
  · obtain _ | ⟨first, _ | ⟨second, ⟨⟩⟩⟩ := holds
    exact exists_encode_two first second
  iterate 4
    · obtain _ | ⟨first, _ | ⟨second, _ | ⟨third, ⟨⟩⟩⟩⟩ := holds
      rw [ByteRange.contains_iff] at first second
      dsimp only [anyTail] at first second
      exact exists_encode_three (by omega) (by omega) third (by omega) (by omega)
  iterate 3
    · obtain _ | ⟨first, _ | ⟨second, _ | ⟨third, _ | ⟨fourth, ⟨⟩⟩⟩⟩⟩ := holds
      rw [ByteRange.contains_iff] at first second
      dsimp only [anyTail] at first second
      exact exists_encode_four (by omega) (by omega) third fourth (by omega) (by omega)

theorem isSequence_of_row {k : Nat} {row : List ByteRange} {ns : List Nat}
    (listed : table[k]? = some row) (numbers : t.map UInt8.toNat = ns)
    (holds : List.Forall₂ (fun r n => r.first ≤ n ∧ n ≤ r.last) row ns) : IsSequence t := by
  rw [← numbers, List.forall₂_map_right_iff] at holds
  exact ⟨row, List.mem_of_getElem? listed, holds⟩

/-- Encodings are sequences of the table. -/
theorem isSequence_encode {c : CodePoint} (scalar : c.isScalar = true) : IsSequence (encode c) := by
  obtain ⟨last, plain⟩ := CodePoint.isScalar_iff.mp scalar
  have numbers := map_toNat_encode last
  rw [byteNumbers] at numbers
  by_cases one : c.toNat < 0x80
  · rw [if_pos one] at numbers
    refine isSequence_of_row (k := 0) rfl numbers ?_
    simp only [List.forall₂_cons, List.Forall₂.nil, and_true]
    omega
  rw [if_neg one] at numbers
  by_cases two : c.toNat < 0x800
  · rw [if_pos two] at numbers
    refine isSequence_of_row (k := 1) rfl numbers ?_
    simp only [List.forall₂_cons, List.Forall₂.nil, and_true, anyTail]
    omega
  rw [if_neg two] at numbers
  by_cases three : c.toNat < 0x10000
  · rw [if_pos three] at numbers
    -- The second byte is narrowed where shorter forms end, and where the surrogates begin.
    by_cases short : c.toNat < 0x1000
    · refine isSequence_of_row (k := 2) rfl numbers ?_
      simp only [List.forall₂_cons, List.Forall₂.nil, and_true, anyTail]
      omega
    by_cases below : c.toNat < 0xD000
    · refine isSequence_of_row (k := 3) rfl numbers ?_
      simp only [List.forall₂_cons, List.Forall₂.nil, and_true, anyTail]
      omega
    by_cases before : c.toNat < 0xD800
    · refine isSequence_of_row (k := 4) rfl numbers ?_
      simp only [List.forall₂_cons, List.Forall₂.nil, and_true, anyTail]
      omega
    · refine isSequence_of_row (k := 5) rfl numbers ?_
      simp only [List.forall₂_cons, List.Forall₂.nil, and_true, anyTail]
      omega
  · rw [if_neg three] at numbers
    -- Here it is narrowed where shorter forms end, and at the last character.
    by_cases short : c.toNat < 0x40000
    · refine isSequence_of_row (k := 6) rfl numbers ?_
      simp only [List.forall₂_cons, List.Forall₂.nil, and_true, anyTail]
      omega
    by_cases below : c.toNat < 0x100000
    · refine isSequence_of_row (k := 7) rfl numbers ?_
      simp only [List.forall₂_cons, List.Forall₂.nil, and_true, anyTail]
      omega
    · refine isSequence_of_row (k := 8) rfl numbers ?_
      simp only [List.forall₂_cons, List.Forall₂.nil, and_true, anyTail]
      omega

theorem isSequence_iff : IsSequence t ↔ ∃ c : CodePoint, c.isScalar = true ∧ encode c = t := by
  constructor
  · exact IsSequence.exists_encode
  · rintro ⟨c, scalar, rfl⟩
    exact isSequence_encode scalar

/-- Text that was encoded from characters is text that is made of the sequences of the table. -/
theorem wellFormed_iff : WellFormed t ↔ IsUtf8 t := by
  constructor
  · rintro ⟨cs, scalars, rfl⟩
    refine ⟨cs.map encode, ?_, ?_⟩
    · rw [List.forall_mem_map]
      intro c listed
      exact isSequence_iff.mpr ⟨c, scalars c listed, rfl⟩
    · rw [encodeAll, List.flatMap_def]
  · rintro ⟨ts, sequences, rfl⟩
    induction ts with
    | nil => exact ⟨[], List.forall_mem_nil _, rfl⟩
    | cons s rest ih =>
        obtain ⟨first, others⟩ := List.forall_mem_cons.mp sequences
        obtain ⟨c, scalar, rfl⟩ := isSequence_iff.mp first
        exact (ih others).cons scalar

end

theorem isScalar_codePoint (lead : Lead) (tail : Text) :
    (lead.codePoint tail).isScalar = true := by
  rw [Lead.codePoint]
  split
  · next whole => exact whole.2.2
  · rfl

theorem isScalar_ascii {b : UInt8} (short : b < 0x80) : CodePoint.isScalar b.toUInt32 = true := by
  have small : b.toNat < 0x80 := UInt8.lt_iff_toNat_lt.mp short
  rw [CodePoint.isScalar_iff, UInt8.toNat_toUInt32]
  omega

/-- Characters come out of arbitrary bytes. -/
theorem isScalar_of_mem_decode {t : Text} : ∀ c ∈ decode t, c.isScalar = true := by
  fun_induction decode t with
  | case1 => exact List.forall_mem_nil _
  | case2 b rest short ih => exact List.forall_mem_cons.mpr ⟨isScalar_ascii short, ih⟩
  | case3 b rest long none ih => exact List.forall_mem_cons.mpr ⟨rfl, ih⟩
  | case4 b rest long lead leads tail ih =>
      exact List.forall_mem_cons.mpr ⟨isScalar_codePoint lead tail, ih⟩

/-- Decoding is the inverse of encoding on characters, and gives characters for all bytes. What is
encoded from them again is well formed, and is what it was decoded from exactly if that is well
formed. -/
theorem decode_lenient_spec :
    (∀ cs : List CodePoint, decode (encodeAll cs) = cs ↔ ∀ c ∈ cs, c.isScalar = true) ∧
      ∀ t : Text, (∀ c ∈ decode t, c.isScalar = true) ∧ IsUtf8 (lenient t) ∧
        (lenient t = t ↔ IsUtf8 t) := by
  constructor
  · intro cs
    constructor
    · intro same
      rw [← same]
      exact isScalar_of_mem_decode
    · exact decode_encodeAll
  · intro t
    have made : IsUtf8 (lenient t) := wellFormed_iff.mp ⟨decode t, isScalar_of_mem_decode, rfl⟩
    refine ⟨isScalar_of_mem_decode, made, ?_⟩
    constructor
    · intro same
      rwa [same] at made
    · intro formed
      exact (wellFormed_iff.mpr formed).lenient

/-- Characters of three and of four bytes, and a form that is longer than its number needs. -/
theorem decode_lenient_overlong :
    decode (encodeAll [0x20AC, 0x1F600]) = [0x20AC, 0x1F600] ∧ ¬ IsUtf8 [0xC0, 0x80] := by
  obtain ⟨inverse, formed⟩ := decode_lenient_spec
  constructor
  · rw [inverse, List.forall_mem_cons, List.forall_mem_singleton]
    exact ⟨rfl, rfl⟩
  · rw [← (formed [0xC0, 0x80]).2.2]
    decide +kernel

end Utf8

end GoInspect
