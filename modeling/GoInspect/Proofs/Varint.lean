import GoInspect.Proofs.Bytes
import GoInspect.Varint

/-!
# Variable length numbers are read as they were written

A number that was written anywhere in a block is read back together with the offset behind it,
whatever stands around it. Folding keeps every signed number that fits into 32 bits, and these are
the numbers that unfolding gives.
-/

namespace GoInspect

namespace Varint

variable {b : Bytes}

theorem groups_of_lt {n : Nat} (h : n < 0x80) : groups n = [n.toUInt8] := by
  rw [groups, dif_pos h]

theorem groups_of_le {n : Nat} (h : 0x80 ≤ n) :
    groups n = (n % 0x80 + 0x80).toUInt8 :: groups (n / 0x80) := by
  rw [groups, dif_neg (Nat.not_lt.mpr h)]

/-- A number is read back where the groups that are allowed are enough for it. -/
theorem readGroups?_groups {k n offset : Nat} (h : b.Holds offset (groups n))
    (fits : n < 0x80 ^ k) (some : 0 < k) :
    readGroups? b k offset = Option.some (n, offset + (groups n).length) := by
  induction k generalizing n offset with
  | zero => omega
  | succ k ih =>
      by_cases short : n < 0x80
      · rw [groups_of_lt short] at h ⊢
        have byte : (n.toUInt8).toNat = n := by
          simp only [Nat.toUInt8_eq, UInt8.toNat_ofNat']
          omega
        have last : n.toUInt8 < 0x80 := by
          rw [UInt8.lt_iff_toNat_lt, byte]
          exact short
        simp only [readGroups?, h.head, last, if_true, byte]
        rfl
      · have long := Nat.not_lt.mp short
        rw [groups_of_le long] at h ⊢
        have byte : ((n % 0x80 + 0x80).toUInt8).toNat = n % 0x80 + 0x80 := by
          simp only [Nat.toUInt8_eq, UInt8.toNat_ofNat']
          omega
        have more : ¬ (n % 0x80 + 0x80).toUInt8 < 0x80 := by
          rw [UInt8.lt_iff_toNat_lt, byte]
          exact Nat.not_lt.mpr (Nat.le_add_left 0x80 _)
        rw [Nat.pow_succ] at fits
        have below : n / 0x80 < 0x80 ^ k := Nat.div_lt_of_lt_mul (Nat.mul_comm _ _ ▸ fits)
        have left : 0 < k := by
          obtain rfl | left := Nat.eq_zero_or_pos k
          · omega
          · exact left
        simp only [readGroups?, h.head, more, if_false, ih h.tail below left, Option.map_some,
          byte, List.length_cons]
        have whole : n % 0x80 + 0x80 - 0x80 + 0x80 * (n / 0x80) = n := by omega
        have place : offset + 1 + (groups (n / 0x80)).length =
            offset + ((groups (n / 0x80)).length + 1) := by omega
        rw [whole, place]

/-- A number of 32 bits is read back as it was written. -/
theorem read?_encode {n : UInt32} {offset : Nat} (h : b.Holds offset (encode n)) :
    read? b offset = some (n, offset + (encode n).length) := by
  have fits : n.toNat < 0x80 ^ maxGroups := Nat.lt_trans n.toNat_lt (by decide)
  rw [encode] at h ⊢
  simp only [read?, readGroups?_groups h fits (by decide), Option.map_some, UInt32.ofNat_toNat]

theorem fold_toNat {d : Int} (low : -2 ^ 31 ≤ d) (high : d < 2 ^ 31) :
    (fold d).toNat = if d < 0 then (-d * 2 - 1).toNat else (d * 2).toNat := by
  rw [fold]
  split
  · simp only [UInt32.ofInt, UInt32.toNat_ofNat']
    omega
  · simp only [UInt32.ofInt, UInt32.toNat_ofNat']
    omega

/-- Signed numbers of 32 bits are folded without loss. -/
theorem unfold_fold {d : Int} (low : -2 ^ 31 ≤ d) (high : d < 2 ^ 31) : unfold (fold d) = d := by
  rw [Varint.unfold, fold_toNat low high]
  split <;> split <;> omega

theorem unfold_bounds (n : UInt32) : -2 ^ 31 ≤ unfold n ∧ unfold n < 2 ^ 31 := by
  have small := n.toNat_lt
  rw [Varint.unfold]
  split <;> omega

theorem fold_unfold (n : UInt32) : fold (unfold n) = n := by
  obtain ⟨low, high⟩ := unfold_bounds n
  apply UInt32.toNat_inj.mp
  rw [fold_toNat low high, Varint.unfold]
  split <;> split <;> omega

theorem fold_eq_zero {d : Int} (low : -2 ^ 31 ≤ d) (high : d < 2 ^ 31) (h : fold d = 0) :
    d = 0 := by
  have zero : (fold d).toNat = 0 := congrArg UInt32.toNat h
  rw [fold_toNat low high] at zero
  split at zero <;> omega

end Varint

end GoInspect
