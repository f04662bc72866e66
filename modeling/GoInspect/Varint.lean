import GoInspect.Bytes

/-!
# Variable length numbers

A number is written in groups of seven bits, least significant group first; the top bit of a byte
says that another group follows. Readers take at most five groups and keep the low 32 bits. Signed
numbers are folded into unsigned ones by the zig-zag order 0, -1, 1, -2, 2, …
-/

namespace GoInspect

namespace Varint

def maxGroups : Nat := 5

/-- The value of at most `groups` groups from an offset on, and the offset after them. Nothing comes
back where the bytes end inside the number. -/
def readGroups? (b : Bytes) : (groups offset : Nat) → Option (Nat × Nat)
  | 0, offset => some (0, offset)
  | groups + 1, offset =>
    match b[offset]? with
    | none => none
    | some byte =>
      if byte < 0x80 then some (byte.toNat, offset + 1)
      else
        (readGroups? b groups (offset + 1)).map fun (value, next) =>
          (byte.toNat - 0x80 + 0x80 * value, next)

theorem readGroups?_bounds {b : Bytes} {groups offset value next : Nat}
    (h : readGroups? b groups offset = some (value, next)) (le : offset ≤ b.size) :
    offset ≤ next ∧ next ≤ b.size ∧ (0 < groups → offset < next) := by
  induction groups generalizing offset value next with
  | zero =>
    simp only [readGroups?, Option.some.injEq, Prod.mk.injEq] at h
    omega
  | succ groups ih =>
    unfold readGroups? at h
    split at h
    · cases h
    · next byte hb =>
      have inside := (Array.getElem?_eq_some_iff.mp hb).1
      split at h
      · simp only [Option.some.injEq, Prod.mk.injEq] at h
        omega
      · simp only [Option.map_eq_some_iff, Prod.mk.injEq, Prod.exists] at h
        obtain ⟨_, _, rest, _, rfl⟩ := h
        have := ih rest (by omega)
        omega

/-- The number at an offset, and the offset of the first byte after it. -/
def read? (b : Bytes) (offset : Nat) : Option (UInt32 × Nat) :=
  (readGroups? b maxGroups offset).map fun (value, next) => (UInt32.ofNat value, next)

/-- A number takes at least one byte, and none beyond the end. -/
theorem read?_bounds {b : Bytes} {offset next : Nat} {value : UInt32}
    (h : read? b offset = some (value, next)) : offset < next ∧ next ≤ b.size := by
  unfold read? at h
  simp only [Option.map_eq_some_iff, Prod.mk.injEq, Prod.exists] at h
  obtain ⟨n, _, read, _, rfl⟩ := h
  by_cases le : offset ≤ b.size
  · have := readGroups?_bounds read le
    unfold maxGroups at this
    omega
  · have none : b[offset]? = none := Array.getElem?_eq_none (by omega)
    simp [readGroups?, maxGroups, none] at read

def groups (n : Nat) : List UInt8 :=
  if _h : n < 0x80 then [n.toUInt8] else (n % 0x80 + 0x80).toUInt8 :: groups (n / 0x80)
termination_by n
decreasing_by omega

def encode (n : UInt32) : List UInt8 := groups n.toNat

/-- The signed number that an unsigned one stands for. -/
def unfold (n : UInt32) : Int :=
  if n.toNat % 2 = 0 then (n.toNat / 2 : Nat) else -(((n.toNat + 1) / 2 : Nat) : Int)

/-- The unsigned number that stands for a signed one, cut to 32 bits. -/
def fold (n : Int) : UInt32 :=
  UInt32.ofInt (if n < 0 then -n * 2 - 1 else n * 2)

end Varint

end GoInspect
