import GoInspect.Text.Utf8
import Mathlib.Data.List.TakeWhile
import Mathlib.Data.Nat.Bitwise

/-!
# Well-formed text is left as it is

Lenient decoding changes malformed text only: what was encoded from characters is decoded to these
characters. The classes of leading bytes and the continuation bytes are finite and are gone through;
everything above them is arithmetic.
-/

namespace GoInspect

namespace CodePoint

theorem toNat_leadBits (c : CodePoint) {bits : CodePoint} {k : Nat} (place : bits.toNat % 32 = k) :
    (leadBits c bits).toNat = c.toNat / 2 ^ k % 256 := by
  rw [← place]
  simp [leadBits, Nat.shiftRight_eq_div_pow]

end CodePoint

namespace Utf8

open CodePoint (leadBits continuation encode encodeAll)

theorem exists_lt_ofNat {b : UInt8} {n : Nat} (h : b.toNat < n) :
    ∃ k < n, b = UInt8.ofNat k :=
  ⟨b.toNat, h, UInt8.ofNat_toNat.symm⟩

theorem lead?_two {x : UInt8} (h : x.toNat < 0x20) :
    ¬ (0xC0 ||| x < 0x80) ∧ lead? (0xC0 ||| x) = some ⟨1, x.toUInt32, 0x80⟩ := by
  obtain ⟨k, small, rfl⟩ := exists_lt_ofNat h
  revert k
  decide

theorem lead?_three {x : UInt8} (h : x.toNat < 0x10) :
    ¬ (0xE0 ||| x < 0x80) ∧ lead? (0xE0 ||| x) = some ⟨2, x.toUInt32, 0x800⟩ := by
  obtain ⟨k, small, rfl⟩ := exists_lt_ofNat h
  revert k
  decide

theorem lead?_four {x : UInt8} (h : x.toNat < 0x08) :
    ¬ (0xF0 ||| x < 0x80) ∧ lead? (0xF0 ||| x) = some ⟨3, x.toUInt32, 0x10000⟩ := by
  obtain ⟨k, small, rfl⟩ := exists_lt_ofNat h
  revert k
  decide

theorem continuation_bits (x : UInt8) :
    isContinuation (0x80 ||| (x &&& 0x3F)) ∧ (0x80 ||| (x &&& 0x3F)).toNat % 64 = x.toNat % 64 := by
  obtain ⟨k, small, rfl⟩ := exists_lt_ofNat x.toNat_lt
  revert k
  decide +kernel

theorem isContinuation_continuation (c bits : CodePoint) :
    isContinuation (continuation c bits) :=
  (continuation_bits _).1

/-- A continuation byte carries six of the bits. -/
theorem toNat_continuation (c : CodePoint) {bits : CodePoint} {k : Nat}
    (place : bits.toNat % 32 = k) :
    (continuation c bits).toNat % 64 = c.toNat / 2 ^ k % 64 := by
  have carried : (continuation c bits).toNat % 64 = (leadBits c bits).toNat % 64 :=
    (continuation_bits _).2
  rw [carried, CodePoint.toNat_leadBits c place]
  omega

/-- A continuation byte moves the number up by six bits. -/
theorem toNat_value_cons (v : CodePoint) (b : UInt8) (room : v.toNat < 2 ^ 26) :
    ((v <<< 6) ||| (b &&& 0x3F).toUInt32).toNat = v.toNat * 64 + b.toNat % 64 := by
  have low : (b &&& 0x3F).toNat = b.toNat % 2 ^ 6 := by
    rw [UInt8.toNat_and]
    exact Nat.and_two_pow_sub_one_eq_mod _ 6
  have high : (v <<< 6).toNat = v.toNat <<< 6 := by
    rw [UInt32.toNat_shiftLeft]
    simp only [Nat.shiftLeft_eq]
    exact Nat.mod_eq_of_lt (by simp; omega)
  have below : b.toNat % 2 ^ 6 < 2 ^ 6 := Nat.mod_lt _ (by decide)
  rw [UInt32.toNat_or, UInt8.toNat_toUInt32, low, high, ← Nat.shiftLeft_add_eq_or_of_lt below,
    Nat.shiftLeft_eq]
  rfl

/-- The number that a leading number and continuation bytes write. -/
def number (n : Nat) (tail : Text) : Nat := tail.foldl (fun n b => n * 64 + b.toNat % 64) n

theorem le_number (n : Nat) (tail : Text) : n ≤ number n tail := by
  induction tail generalizing n with
  | nil => exact Nat.le_refl n
  | cons b rest ih =>
      have step := ih (n * 64 + b.toNat % 64)
      change n ≤ number (n * 64 + b.toNat % 64) rest
      omega

theorem toNat_value {bits : CodePoint} {tail : Text} (room : number bits.toNat tail < 2 ^ 32) :
    (value bits tail).toNat = number bits.toNat tail := by
  induction tail generalizing bits with
  | nil => rfl
  | cons b rest ih =>
      have least := le_number (bits.toNat * 64 + b.toNat % 64) rest
      change number (bits.toNat * 64 + b.toNat % 64) rest < 2 ^ 32 at room
      have step := toNat_value_cons bits b (by omega)
      rw [← step] at room
      have rest' := ih room
      rw [step] at rest'
      exact rest'

/-- A complete sequence is taken as a whole. -/
theorem decode_sequence {b : UInt8} {lead : Lead} {tail rest : Text} (long : ¬ b < 0x80)
    (leads : lead? b = some lead) (length : tail.length = lead.continuations)
    (continues : ∀ t ∈ tail, isContinuation t = true) :
    decode (b :: (tail ++ rest)) = lead.codePoint tail :: decode rest := by
  have taken : continuations lead.continuations (tail ++ rest) = tail := by
    rw [continuations, ← length, List.take_left, List.takeWhile_eq_self_iff]
    exact continues
  rw [decode, if_neg long, leads]
  simp only [taken, List.drop_left]

/-- A sequence that writes a character is decoded to it. -/
theorem decode_number {b : UInt8} {lead : Lead} {tail : Text} {c : CodePoint} (long : ¬ b < 0x80)
    (leads : lead? b = some lead) (length : tail.length = lead.continuations)
    (continues : ∀ t ∈ tail, isContinuation t = true)
    (whole : number lead.bits.toNat tail = c.toNat) (least : lead.minimum ≤ c)
    (scalar : c.isScalar = true) (rest : Text) :
    decode (b :: (tail ++ rest)) = c :: decode rest := by
  have written : value lead.bits tail = c :=
    UInt32.toNat_inj.mp ((toNat_value (whole ▸ c.toNat_lt)).trans whole)
  have taken : lead.codePoint tail = c := by
    rw [Lead.codePoint, written]
    exact if_pos ⟨length, least, scalar⟩
  rw [decode_sequence long leads length continues, taken]

/-- A continuation byte takes the number of the bits above it to that of the bits from it on. -/
theorem number_continuation (c bits : CodePoint) {k j : Nat} (place : bits.toNat % 32 = k)
    (above : j = k + 6) (tail : Text) :
    number (c.toNat / 2 ^ j) (continuation c bits :: tail) = number (c.toNat / 2 ^ k) tail := by
  have next : c.toNat / 2 ^ j * 64 + (continuation c bits).toNat % 64 = c.toNat / 2 ^ k := by
    rw [toNat_continuation c place, above, Nat.pow_add, ← Nat.div_div_eq_div_mul]
    exact Nat.div_add_mod' _ _
  exact congrArg (number · tail) next

theorem toNat_lead {c bits : CodePoint} {k n : Nat} (place : bits.toNat % 32 = k)
    (fits : c.toNat / 2 ^ k < n) (byte : n ≤ 256) :
    (leadBits c bits).toNat < n ∧ (leadBits c bits).toUInt32.toNat = c.toNat / 2 ^ k := by
  rw [UInt8.toNat_toUInt32, CodePoint.toNat_leadBits c place,
    Nat.mod_eq_of_lt (Nat.lt_of_lt_of_le fits byte)]
  exact ⟨fits, rfl⟩

section Character

variable {c : CodePoint} (rest : Text)

theorem ascii (short : c < 0x80) : c.toUInt8.toNat = c.toNat ∧ c.toUInt8 < 0x80 := by
  rw [UInt32.lt_iff_toNat_lt] at short
  change c.toNat < 0x80 at short
  have number : c.toUInt8.toNat = c.toNat := by
    rw [UInt32.toNat_toUInt8]
    exact Nat.mod_eq_of_lt (by omega)
  rw [UInt8.lt_iff_toNat_lt, number]
  exact ⟨rfl, short⟩

theorem decode_one (short : c < 0x80) : decode (c.toUInt8 :: rest) = c :: decode rest := by
  obtain ⟨number, ascii⟩ := ascii short
  have same : c.toUInt8.toUInt32 = c := by
    apply UInt32.toNat_inj.mp
    rw [UInt8.toNat_toUInt32, number]
  rw [decode, if_pos ascii, same]

theorem decode_two (scalar : c.isScalar = true) (long : 0x80 ≤ c) (short : c.toNat < 0x800) :
    decode ((0xC0 ||| leadBits c 6) :: ([continuation c 0] ++ rest)) = c :: decode rest := by
  have fits : c.toNat / 2 ^ 6 < 0x20 := by omega
  obtain ⟨small, bits⟩ := toNat_lead (show (6 : CodePoint).toNat % 32 = 6 from rfl) fits (by decide)
  obtain ⟨lead, leads⟩ := lead?_two small
  apply decode_number lead leads rfl _ _ long scalar
  · simp [isContinuation_continuation]
  · rw [bits, number_continuation c 0 (k := 0) (j := 6) rfl rfl]
    exact Nat.div_one _

theorem decode_three (scalar : c.isScalar = true) (long : 0x800 ≤ c) (short : c.toNat < 0x10000) :
    decode ((0xE0 ||| leadBits c 12) :: ([continuation c 6, continuation c 0] ++ rest)) =
      c :: decode rest := by
  have fits : c.toNat / 2 ^ 12 < 0x10 := by omega
  obtain ⟨small, bits⟩ :=
    toNat_lead (show (12 : CodePoint).toNat % 32 = 12 from rfl) fits (by decide)
  obtain ⟨lead, leads⟩ := lead?_three small
  apply decode_number lead leads rfl _ _ long scalar
  · simp [isContinuation_continuation]
  · rw [bits, number_continuation c 6 (k := 6) (j := 12) rfl rfl,
      number_continuation c 0 (k := 0) (j := 6) rfl rfl]
    exact Nat.div_one _

theorem decode_four (scalar : c.isScalar = true) (long : 0x10000 ≤ c)
    (short : c.toNat ≤ 0x10FFFF) :
    decode ((0xF0 ||| leadBits c 18) ::
      ([continuation c 12, continuation c 6, continuation c 0] ++ rest)) = c :: decode rest := by
  have fits : c.toNat / 2 ^ 18 < 0x08 := by omega
  obtain ⟨small, bits⟩ :=
    toNat_lead (show (18 : CodePoint).toNat % 32 = 18 from rfl) fits (by decide)
  obtain ⟨lead, leads⟩ := lead?_four small
  apply decode_number lead leads rfl _ _ long scalar
  · simp [isContinuation_continuation]
  · rw [bits, number_continuation c 12 (k := 12) (j := 18) rfl rfl,
      number_continuation c 6 (k := 6) (j := 12) rfl rfl,
      number_continuation c 0 (k := 0) (j := 6) rfl rfl]
    exact Nat.div_one _

end Character

/-- What was encoded from a character is decoded to it. -/
theorem decode_encode_append {c : CodePoint} (scalar : c.isScalar = true) (rest : Text) :
    decode (encode c ++ rest) = c :: decode rest := by
  have last : c.toNat ≤ 0x10FFFF := by
    rw [CodePoint.isScalar, Bool.and_eq_true, decide_eq_true_iff] at scalar
    exact UInt32.le_iff_toNat_le.mp scalar.1
  rw [encode]
  by_cases one : c < 0x80
  · rw [if_pos one]
    exact decode_one rest one
  rw [if_neg one]
  by_cases two : c < 0x800
  · rw [if_pos two]
    exact decode_two rest scalar (UInt32.not_lt.mp one) (UInt32.lt_iff_toNat_lt.mp two)
  rw [if_neg two]
  by_cases three : c < 0x10000
  · rw [if_pos three]
    exact decode_three rest scalar (UInt32.not_lt.mp two) (UInt32.lt_iff_toNat_lt.mp three)
  · rw [if_neg three]
    exact decode_four rest scalar (UInt32.not_lt.mp three) last

/-- Text that was encoded from characters. -/
def WellFormed (t : Text) : Prop :=
  ∃ cs : List CodePoint, (∀ c ∈ cs, c.isScalar = true) ∧ encodeAll cs = t

theorem decode_encodeAll {cs : List CodePoint} (scalars : ∀ c ∈ cs, c.isScalar = true) :
    decode (encodeAll cs) = cs := by
  induction cs with
  | nil => rw [encodeAll, List.flatMap_nil, decode]
  | cons c rest ih =>
      obtain ⟨first, others⟩ := List.forall_mem_cons.mp scalars
      have tail := ih others
      rw [encodeAll] at tail
      rw [encodeAll, List.flatMap_cons, decode_encode_append first, tail]

theorem WellFormed.cons {c : CodePoint} {t : Text} (h : WellFormed t) (scalar : c.isScalar = true) :
    WellFormed (encode c ++ t) := by
  obtain ⟨cs, scalars, rfl⟩ := h
  exact ⟨c :: cs, List.forall_mem_cons.mpr ⟨scalar, scalars⟩, rfl⟩

theorem WellFormed.lenient {t : Text} (h : WellFormed t) : lenient t = t := by
  obtain ⟨cs, scalars, rfl⟩ := h
  rw [Utf8.lenient, decode_encodeAll scalars]

theorem isContinuation_of_lead {b : UInt8} (h : b < 0x80 ∨ 0xC0 ≤ b) :
    isContinuation b = false := by
  obtain ⟨k, small, rfl⟩ := exists_lt_ofNat b.toNat_lt
  revert k
  decide +kernel

theorem lead_le (x : UInt8) : 0xC0 ≤ 0xC0 ||| x ∧ 0xC0 ≤ 0xE0 ||| x ∧ 0xC0 ≤ 0xF0 ||| x := by
  obtain ⟨k, small, rfl⟩ := exists_lt_ofNat x.toNat_lt
  revert k
  decide +kernel

/-- An encoding is a byte that continues nothing and bytes that continue it. -/
theorem exists_encode_eq (c : CodePoint) : ∃ first tail, encode c = first :: tail ∧
    isContinuation first = false ∧ ∀ b ∈ tail, isContinuation b = true := by
  have leads (bits : CodePoint) := lead_le (leadBits c bits)
  rw [encode]
  split
  · rename_i one
    exact ⟨_, _, rfl, isContinuation_of_lead (.inl (ascii one).2), List.forall_mem_nil _⟩
  · split
    · refine ⟨_, _, rfl, isContinuation_of_lead (.inr (leads 6).1), ?_⟩
      simp [isContinuation_continuation]
    · split
      · refine ⟨_, _, rfl, isContinuation_of_lead (.inr (leads 12).2.1), ?_⟩
        simp [isContinuation_continuation]
      · refine ⟨_, _, rfl, isContinuation_of_lead (.inr (leads 18).2.2), ?_⟩
        simp [isContinuation_continuation]

theorem WellFormed.dropFirst {t : Text} (h : WellFormed t) (c : CodePoint) :
    dropFirst (encode c ++ t) = t := by
  obtain ⟨first, tail, eq, _, continues⟩ := exists_encode_eq c
  rw [eq, List.cons_append, Utf8.dropFirst, List.dropWhile_append_of_pos continues]
  obtain ⟨cs, scalars, rfl⟩ := h
  cases cs with
  | nil => rfl
  | cons c' rest =>
      obtain ⟨first', tail', eq', leads, _⟩ := exists_encode_eq c'
      rw [encodeAll, List.flatMap_cons, eq', List.cons_append]
      exact List.dropWhile_cons_of_neg (Bool.eq_false_iff.mp leads)

end Utf8

end GoInspect
