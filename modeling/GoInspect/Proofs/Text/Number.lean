import GoInspect.Proofs.Text
import GoInspect.Text.Number
import Mathlib.Algebra.Order.Ring.Int

/-!
# Numbers that are printed and read

Reading the digits of a number gives the number back, in every base that has enough characters.
-/

namespace GoInspect

namespace Text

variable {base n : Nat}

theorem digits_of_lt (h : n < base) : digits base n = [n] := by
  rw [digits, dif_pos (.inl h)]

theorem digits_of_le (two : 2 ≤ base) (h : base ≤ n) :
    digits base n = digits base (n / base) ++ [n % base] := by
  rw [digits, dif_neg (by omega)]

/-- Induction on the digits of a number, from the most significant one on. -/
theorem digits_induction {P : Nat → Prop} (two : 2 ≤ base) (one : ∀ n < base, P n)
    (more : ∀ n, base ≤ n → P (n / base) → P n) (n : Nat) : P n := by
  induction n using Nat.strongRecOn with
  | ind n ih =>
      by_cases small : n < base
      · exact one n small
      · have le := Nat.le_of_not_lt small
        exact more n le (ih (n / base) (Nat.div_lt_self (by omega) two))

theorem digits_lt (two : 2 ≤ base) (n : Nat) : ∀ d ∈ digits base n, d < base := by
  induction n using digits_induction two with
  | one n small =>
      rw [digits_of_lt small]
      exact List.forall_mem_singleton.mpr small
  | more n le ih =>
      rw [digits_of_le two le]
      intro d mem
      obtain mem | last := List.mem_append.mp mem
      · exact ih d mem
      · rw [List.mem_singleton.mp last]
        exact Nat.mod_lt n (by omega)

theorem digits_ne_nil (base n : Nat) : digits base n ≠ [] := by
  rw [digits]
  split
  · exact List.cons_ne_nil _ _
  · exact List.append_ne_nil_of_right_ne_nil _ (List.cons_ne_nil _ _)

/-- Only zero begins with the digit 0. -/
theorem head_digits (two : 2 ≤ base) (some : 0 < n) :
    ∃ d rest, digits base n = d :: rest ∧ d ≠ 0 := by
  induction n using digits_induction two with
  | one n small =>
      rw [digits_of_lt small]
      exact ⟨n, [], rfl, Nat.ne_of_gt some⟩
  | more n le ih =>
      obtain ⟨d, rest, eq, nonzero⟩ := ih (Nat.div_pos le (by omega))
      rw [digits_of_le two le, eq]
      exact ⟨d, rest ++ [n % base], rfl, nonzero⟩

theorem digitValue_digitByte : ∀ d < 36, digitValue (digitByte d) = d := by decide

/-- The digits of a number write that number. -/
theorem digitsValue?_ofNat (two : 2 ≤ base) (few : base ≤ 36) (n : Nat) :
    digitsValue? base (ofNat base n) = some n := by
  have step (value d : Nat) (lt : d < base) :
      (if digitValue (digitByte d) < base then some (value * base + digitValue (digitByte d))
        else none) = some (value * base + d) := by
    rw [digitValue_digitByte d (by omega), if_pos lt]
  induction n using digits_induction two with
  | one n small =>
      rw [digitsValue?, ofNat, digits_of_lt small, List.map_singleton, List.foldlM_cons,
        step 0 n small, Nat.zero_mul, Nat.zero_add]
      rfl
  | more n le ih =>
      rw [digitsValue?, ofNat] at ih
      rw [digitsValue?, ofNat, digits_of_le two le, List.map_append, List.foldlM_append, ih,
        Option.bind_eq_bind, Option.bind_some, List.map_singleton, List.foldlM_cons,
        step _ _ (Nat.mod_lt n (by omega)), Nat.mul_comm, Nat.div_add_mod]
      rfl

theorem natOfDigits?_ofNat (two : 2 ≤ base) (few : base ≤ 36) (n : Nat) :
    natOfDigits? base (ofNat base n) = some n := by
  have some : (ofNat base n).isEmpty = false := by
    rw [ofNat, List.isEmpty_map]
    exact List.isEmpty_eq_false_iff.mpr (digits_ne_nil base n)
  rw [natOfDigits?, some, if_neg Bool.false_ne_true, digitsValue?_ofNat two few]

/-- What holds of the characters of all digits holds of those of a number. -/
theorem forall_ofNat {P : UInt8 → Prop} (two : 2 ≤ base) (all : ∀ d < base, P (digitByte d)) :
    ∀ b ∈ ofNat base n, P b := by
  intro b mem
  obtain ⟨d, digit, rfl⟩ := List.mem_map.mp mem
  exact all d (digits_lt two n d digit)

section Padded

variable {width : Nat}

theorem length_digits_le (two : 2 ≤ base) (some : 0 < width) (fits : n < base ^ width) :
    (digits base n).length ≤ width := by
  induction width generalizing n with
  | zero => cases some
  | succ width ih =>
      by_cases small : n < base
      · rw [digits_of_lt small, List.length_singleton]
        exact some
      · have large := Nat.le_of_not_lt small
        have more : 0 < width := by
          rw [Nat.pos_iff_ne_zero]
          rintro rfl
          rw [Nat.zero_add, Nat.pow_one] at fits
          exact small fits
        have above : n / base < base ^ width := by
          rw [Nat.div_lt_iff_lt_mul (by omega), ← Nat.pow_succ]
          exact fits
        rw [digits_of_le two large, List.length_append, List.length_singleton]
        exact Nat.succ_le_succ (ih more above)

theorem length_paddedHex (some : 0 < width) (fits : n < 16 ^ width) :
    (paddedHex width n).length = width := by
  have short : (ofNat 16 n).length ≤ width := by
    rw [ofNat, List.length_map]
    exact length_digits_le (by decide) some fits
  rw [paddedHex, List.length_append, List.length_replicate]
  omega

theorem forall_paddedHex {P : UInt8 → Prop} (all : ∀ d < 16, P (digitByte d)) (width n : Nat) :
    ∀ b ∈ paddedHex width n, P b := by
  refine List.forall_mem_append.mpr ⟨?_, forall_ofNat (by decide) all⟩
  intro b mem
  rw [List.eq_of_mem_replicate mem]
  exact all 0 (by decide)

/-- Zeros in front of a number do not count. -/
theorem digitsValue?_paddedHex (width n : Nat) : digitsValue? 16 (paddedHex width n) = some n := by
  have zeros (k : Nat) : digitsValue? 16 (List.replicate k 48) = some 0 := by
    induction k with
    | zero => rfl
    | succ k ih => exact ih
  have front := zeros (width - (ofNat 16 n).length)
  have number := digitsValue?_ofNat (by decide : 2 ≤ 16) (by decide) n
  rw [digitsValue?] at front number
  rw [digitsValue?, paddedHex, List.foldlM_append, front]
  exact number

end Padded

section Decimal

theorem forall_decimal {P : UInt8 → Prop} (all : ∀ d < 10, P (digitByte d)) :
    ∀ b ∈ decimal n, P b :=
  forall_ofNat (by decide) all

theorem solid_decimal (n : Nat) : Solid (decimal n) := by
  refine solid_of_forall ?_ (forall_decimal (by decide))
  rw [decimal, ofNat, ne_eq, List.map_eq_nil_iff]
  exact digits_ne_nil 10 n

theorem literalBase_of_ne {b : UInt8} {t : Text} (nonzero : b ≠ 48) :
    literalBase (b :: t) = (10, b :: t) := by
  unfold literalBase
  split
  · next eq => exact absurd (List.cons.inj eq).1 nonzero
  · next eq => exact absurd (List.cons.inj eq).1 nonzero
  · rfl

theorem literalBase_decimal (n : Nat) : literalBase (decimal n) = (10, decimal n) := by
  obtain rfl | positive := Nat.eq_zero_or_pos n
  · rw [decimal, ofNat, digits_of_lt (by decide)]
    rfl
  · obtain ⟨d, rest, eq, nonzero⟩ := head_digits (by decide : 2 ≤ 10) positive
    have small := digits_lt (by decide) n d (eq ▸ List.mem_cons_self)
    have other : ∀ d < 10, d ≠ 0 → digitByte d ≠ 48 := by decide
    rw [decimal, ofNat, eq]
    exact literalBase_of_ne (other d small nonzero)

theorem natLiteral?_decimal (n : Nat) : natLiteral? (decimal n) = some n := by
  rw [natLiteral?, (solid_decimal n).trim, literalBase_decimal]
  exact natOfDigits?_ofNat (by decide) (by decide) n

theorem toUInt64?_decimal (n : Nat) :
    (decimal n).toUInt64? = if n < 2 ^ 64 then some (UInt64.ofNat n) else none := by
  rw [toUInt64?, unsigned?, natLiteral?_decimal, Option.filter_some]
  by_cases fits : n < 2 ^ 64
  · have below : n < Nat.pow 2 64 := fits
    rw [if_pos fits, if_pos (decide_eq_true below)]
    rfl
  · rw [if_neg fits, if_neg (by simpa using fits)]
    rfl

end Decimal

end Text

end GoInspect
