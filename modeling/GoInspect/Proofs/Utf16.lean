import GoInspect.Proofs.Utf8.Table
import GoInspect.Text.Utf16

/-!
# UTF-16 text is read back

A character takes one unit, or the two halves of a pair where its number does not fit one, and a
unit takes two bytes. Behind a byte order mark of either order, decoding gives the characters back.
Little endian text is also read without one, unless its first unit reads as a mark itself. All other
bytes, however they are cut, are decoded to characters as well.
-/

namespace GoInspect

namespace Utf16

open CodePoint (replacement)

/-- The units of a character. Each half of a pair carries ten bits of what is beyond 2^16. -/
def unitsOf (c : CodePoint) : List UInt16 :=
  if c < 0x10000 then [c.toUInt16]
  else
    [0xD800 + ((c - 0x10000) / 0x400).toUInt16, 0xDC00 + ((c - 0x10000) % 0x400).toUInt16]

def unitBytes (bigEndian : Bool) (u : UInt16) : Text :=
  if bigEndian then [(u >>> 8).toUInt8, u.toUInt8] else [u.toUInt8, (u >>> 8).toUInt8]

def encode (bigEndian : Bool) (cs : List CodePoint) : Text :=
  (cs.flatMap unitsOf).flatMap (unitBytes bigEndian)

def mark (bigEndian : Bool) : Text := unitBytes bigEndian 0xFEFF

variable {bigEndian : Bool} {u v : UInt16} {us : List UInt16} {c : CodePoint}
  {cs : List CodePoint}

section Bytes

def unit (bigEndian : Bool) (a b : UInt8) : UInt16 :=
  if bigEndian then (a.toUInt16 <<< 8) ||| b.toUInt16 else a.toUInt16 ||| (b.toUInt16 <<< 8)

theorem units_cons_cons (bigEndian : Bool) (a b : UInt8) (rest : Text) :
    units bigEndian (a :: b :: rest) =
      (unit bigEndian a b :: (units bigEndian rest).1, (units bigEndian rest).2) := rfl

theorem toNat_or_high (high low : UInt8) :
    ((high.toUInt16 <<< 8) ||| low.toUInt16).toNat = 256 * high.toNat + low.toNat := by
  have below : low.toNat < 2 ^ 8 := low.toNat_lt
  have shifted : (high.toUInt16 <<< 8).toNat = 2 ^ 8 * high.toNat := by
    have byte := high.toNat_lt
    rw [UInt16.toNat_shiftLeft, UInt8.toNat_toUInt16, Nat.shiftLeft_eq]
    simp only [UInt16.reduceToNat, Nat.reduceMod, Nat.reducePow] at byte ⊢
    omega
  rw [UInt16.toNat_or, shifted, UInt8.toNat_toUInt16, ← Nat.two_pow_add_eq_or_of_lt below]

theorem toNat_unit (bigEndian : Bool) (a b : UInt8) : (unit bigEndian a b).toNat =
    if bigEndian then 256 * a.toNat + b.toNat else 256 * b.toNat + a.toNat := by
  cases bigEndian with
  | true => exact toNat_or_high a b
  | false => exact (congrArg UInt16.toNat (UInt16.or_comm _ _)).trans (toNat_or_high b a)

theorem toNat_parts (u : UInt16) :
    (u >>> 8).toUInt8.toNat = u.toNat / 256 ∧ u.toUInt8.toNat = u.toNat % 256 := by
  have word := u.toNat_lt
  constructor
  · rw [UInt16.toNat_toUInt8, UInt16.toNat_shiftRight, Nat.shiftRight_eq_div_pow]
    simp only [UInt16.reduceToNat, Nat.reduceMod, Nat.reducePow] at word ⊢
    omega
  · exact UInt16.toNat_toUInt8 u

theorem units_unitBytes (bigEndian : Bool) (u : UInt16) (rest : Text) :
    units bigEndian (unitBytes bigEndian u ++ rest) =
      (u :: (units bigEndian rest).1, (units bigEndian rest).2) := by
  obtain ⟨high, low⟩ := toNat_parts u
  cases bigEndian with
  | true =>
      have whole : unit true (u >>> 8).toUInt8 u.toUInt8 = u := by
        apply UInt16.toNat_inj.mp
        rw [toNat_unit, if_pos rfl, high, low, Nat.div_add_mod]
      exact (units_cons_cons true _ _ rest).trans (by rw [whole])
  | false =>
      have whole : unit false u.toUInt8 (u >>> 8).toUInt8 = u := by
        apply UInt16.toNat_inj.mp
        rw [toNat_unit, if_neg Bool.false_ne_true, high, low, Nat.div_add_mod]
      exact (units_cons_cons false _ _ rest).trans (by rw [whole])

/-- The bytes of units are read in pairs, whatever stands behind them. -/
theorem units_bytes (bigEndian : Bool) (us : List UInt16) (rest : Text) :
    units bigEndian (us.flatMap (unitBytes bigEndian) ++ rest) =
      (us ++ (units bigEndian rest).1, (units bigEndian rest).2) := by
  induction us with
  | nil => rfl
  | cons u us ih =>
      rw [List.flatMap_cons, List.append_assoc, units_unitBytes, ih]
      rfl

theorem unitBytes_append_inj {rest rest' : Text}
    (same : unitBytes bigEndian u ++ rest = unitBytes bigEndian v ++ rest') : u = v := by
  have parts := congrArg (units bigEndian) same
  rw [units_unitBytes, units_unitBytes] at parts
  exact (List.cons.inj (Prod.mk.inj parts).1).1

end Bytes

section Units

theorem isHigh_iff : isHigh u = true ↔ 0xD800 ≤ u.toNat ∧ u.toNat ≤ 0xDBFF := by
  rw [isHigh, Bool.and_eq_true, decide_eq_true_iff, decide_eq_true_iff]
  exact Iff.rfl

theorem isLow_iff : isLow u = true ↔ 0xDC00 ≤ u.toNat ∧ u.toNat ≤ 0xDFFF := by
  rw [isLow, Bool.and_eq_true, decide_eq_true_iff, decide_eq_true_iff]
  exact Iff.rfl

/-- The unit is no half of a pair. -/
def IsWhole (u : UInt16) : Prop := u.toNat < 0xD800 ∨ 0xDFFF < u.toNat

theorem isWhole_iff : IsWhole u ↔ ¬ (isHigh u || isLow u) = true := by
  rw [Bool.or_eq_true, isHigh_iff, isLow_iff, IsWhole]
  omega

theorem ofUnits_whole (whole : IsWhole u) (us : List UInt16) :
    ofUnits (u :: us) = u.toUInt32 :: ofUnits us := by
  have neither := isWhole_iff.mp whole
  have noPair (v : UInt16) : ¬ (isHigh u && isLow v) = true := by
    intro both
    exact neither (Bool.or_eq_true _ _ ▸ .inl (Bool.and_eq_true _ _ ▸ both).1)
  cases us with
  | nil => rw [ofUnits, ofUnits, if_neg neither]
  | cons v rest => rw [ofUnits, if_neg (noPair v), if_neg neither]

theorem ofUnits_pair (high : isHigh u = true) (low : isLow v = true) (us : List UInt16) :
    ofUnits (u :: v :: us) = pair u v :: ofUnits us := by
  rw [ofUnits, high, low]
  rfl

/-- Pairs stand for the numbers that one unit does not hold. -/
theorem toNat_pair (high : isHigh u = true) (low : isLow v = true) :
    (pair u v).toNat = 0x10000 + 0x400 * (u.toNat - 0xD800) + (v.toNat - 0xDC00) := by
  rw [isHigh_iff] at high
  rw [isLow_iff] at low
  rw [pair]
  simp only [UInt32.toNat_add, UInt32.toNat_mul, UInt32.toNat_sub, UInt16.toNat_toUInt32,
    UInt32.reduceToNat, Nat.reducePow]
  omega

theorem isWhole_toUInt16 (scalar : c.isScalar = true) (small : c.toNat < 0x10000) :
    IsWhole c.toUInt16 ∧ c.toUInt16.toUInt32 = c := by
  obtain ⟨_, plain⟩ := CodePoint.isScalar_iff.mp scalar
  have same : c.toUInt16.toNat = c.toNat := by
    rw [UInt32.toNat_toUInt16]
    exact Nat.mod_eq_of_lt small
  constructor
  · rw [IsWhole, same]
    exact plain
  · apply UInt32.toNat_inj.mp
    rw [UInt16.toNat_toUInt32, same]

theorem toNat_halves (last : c.toNat ≤ 0x10FFFF) (large : 0x10000 ≤ c.toNat) :
    (0xD800 + ((c - 0x10000) / 0x400).toUInt16 : UInt16).toNat =
        0xD800 + (c.toNat - 0x10000) / 0x400 ∧
      (0xDC00 + ((c - 0x10000) % 0x400).toUInt16 : UInt16).toNat =
        0xDC00 + (c.toNat - 0x10000) % 0x400 := by
  simp only [UInt16.toNat_add, UInt32.toNat_toUInt16, UInt32.toNat_div, UInt32.toNat_mod,
    UInt32.toNat_sub, UInt32.reduceToNat, UInt16.reduceToNat, Nat.reducePow]
  omega

/-- What was made of a character is taken for it, whatever follows. -/
theorem ofUnits_unitsOf (scalar : c.isScalar = true) (us : List UInt16) :
    ofUnits (unitsOf c ++ us) = c :: ofUnits us := by
  rw [unitsOf]
  split
  · next small =>
    obtain ⟨whole, same⟩ := isWhole_toUInt16 scalar (UInt32.lt_iff_toNat_lt.mp small)
    rw [List.singleton_append, ofUnits_whole whole, same]
  · next large =>
    have last := (CodePoint.isScalar_iff.mp scalar).1
    have beyond : 0x10000 ≤ c.toNat := UInt32.le_iff_toNat_le.mp (UInt32.not_lt.mp large)
    obtain ⟨first, second⟩ := toNat_halves last beyond
    have high : isHigh (0xD800 + ((c - 0x10000) / 0x400).toUInt16) = true := by
      rw [isHigh_iff, first]
      omega
    have low : isLow (0xDC00 + ((c - 0x10000) % 0x400).toUInt16) = true := by
      rw [isLow_iff, second]
      omega
    have same : pair (0xD800 + ((c - 0x10000) / 0x400).toUInt16)
        (0xDC00 + ((c - 0x10000) % 0x400).toUInt16) = c := by
      apply UInt32.toNat_inj.mp
      rw [toNat_pair high low, first, second]
      omega
    rw [List.cons_append, List.singleton_append, ofUnits_pair high low, same]

theorem ofUnits_flatMap (scalars : ∀ c ∈ cs, c.isScalar = true) (us : List UInt16) :
    ofUnits (cs.flatMap unitsOf ++ us) = cs ++ ofUnits us := by
  induction cs with
  | nil => rfl
  | cons c rest ih =>
      obtain ⟨first, others⟩ := List.forall_mem_cons.mp scalars
      rw [List.flatMap_cons, List.append_assoc, ofUnits_unitsOf first, ih others, List.cons_append]

theorem isScalar_whole (whole : IsWhole u) : CodePoint.isScalar u.toUInt32 = true := by
  have word : u.toNat < 2 ^ 16 := u.toNat_lt
  rw [CodePoint.isScalar_iff, UInt16.toNat_toUInt32]
  rw [IsWhole] at whole
  omega

theorem isScalar_pair (high : isHigh u = true) (low : isLow v = true) :
    (pair u v).isScalar = true := by
  have whole := toNat_pair high low
  rw [isHigh_iff] at high
  rw [isLow_iff] at low
  rw [CodePoint.isScalar_iff, whole]
  omega

/-- Characters come out of arbitrary units. -/
theorem isScalar_ofUnits (us : List UInt16) : ∀ c ∈ ofUnits us, c.isScalar = true := by
  fun_induction ofUnits us with
  | case1 => exact List.forall_mem_nil _
  | case2 u half => exact List.forall_mem_singleton.mpr rfl
  | case3 u whole => exact List.forall_mem_singleton.mpr (isScalar_whole (isWhole_iff.mpr whole))
  | case4 u v rest both ih =>
      obtain ⟨high, low⟩ := (Bool.and_eq_true _ _).mp both
      exact List.forall_mem_cons.mpr ⟨isScalar_pair high low, ih⟩
  | case5 u v rest alone half ih => exact List.forall_mem_cons.mpr ⟨rfl, ih⟩
  | case6 u v rest alone whole ih =>
      exact List.forall_mem_cons.mpr ⟨isScalar_whole (isWhole_iff.mpr whole), ih⟩

end Units

section Orders

theorem decodeAs_eq (bigEndian : Bool) (t : Text) : decodeAs bigEndian t =
    ofUnits (units bigEndian t).1 ++ if (units bigEndian t).2 then [replacement] else [] := rfl

/-- Encoded characters are read in their own order, whatever stands behind them. -/
theorem decodeAs_encode_append (bigEndian : Bool) (scalars : ∀ c ∈ cs, c.isScalar = true)
    (rest : Text) :
    decodeAs bigEndian (encode bigEndian cs ++ rest) = cs ++ decodeAs bigEndian rest := by
  rw [decodeAs_eq, encode, units_bytes, ofUnits_flatMap scalars, List.append_assoc, decodeAs_eq]

theorem isScalar_decodeAs (bigEndian : Bool) (t : Text) :
    ∀ c ∈ decodeAs bigEndian t, c.isScalar = true := by
  rw [decodeAs_eq, List.forall_mem_append]
  refine ⟨isScalar_ofUnits _, ?_⟩
  split
  · exact List.forall_mem_singleton.mpr rfl
  · exact List.forall_mem_nil _

theorem decode_mark (bigEndian : Bool) (t : Text) :
    decode (mark bigEndian ++ t) = decodeAs bigEndian t := by
  cases bigEndian <;> rfl

theorem decode_unmarked {t : Text} (unmarked : ∀ bigEndian rest, t ≠ mark bigEndian ++ rest) :
    decode t = decodeAs false t := by
  unfold decode
  split
  · next rest => exact absurd rfl (unmarked false rest)
  · next rest => exact absurd rfl (unmarked true rest)
  · rfl

theorem isScalar_decode (t : Text) : ∀ c ∈ decode t, c.isScalar = true := by
  unfold decode
  split <;> exact isScalar_decodeAs _ _

/-- Text without a mark begins with a unit that is none in either order. -/
theorem unmarked_iff (us : List UInt16) {odd : Text} (short : odd.length ≤ 1) :
    (∀ bigEndian rest, us.flatMap (unitBytes false) ++ odd ≠ mark bigEndian ++ rest) ↔
      ∀ u ∈ us.head?, u ≠ 0xFEFF ∧ u ≠ 0xFFFE := by
  cases us with
  | nil =>
      refine iff_of_true ?_ (fun _ none => nomatch none)
      intro bigEndian rest same
      have lengths := congrArg List.length same
      have two : (mark bigEndian).length = 2 := by cases bigEndian <;> rfl
      simp only [List.flatMap_nil, List.nil_append, List.length_append, two] at lengths
      omega
  | cons u us =>
      have swapped : mark true = unitBytes false 0xFFFE := by decide
      rw [List.head?_cons, List.flatMap_cons, List.append_assoc]
      constructor
      · intro unmarked first mem
        cases mem
        constructor
        · rintro rfl
          exact unmarked false _ rfl
        · rintro rfl
          exact unmarked true _ (congrArg (· ++ _) swapped.symm)
      · intro other bigEndian rest same
        obtain ⟨notFirst, notSecond⟩ := other u rfl
        cases bigEndian with
        | false => exact notFirst (unitBytes_append_inj same)
        | true => exact notSecond (unitBytes_append_inj (swapped ▸ same))

end Orders

section Exchanged

/-- The unit with its bytes in the other order. -/
def swap (u : UInt16) : UInt16 := unit true u.toUInt8 (u >>> 8).toUInt8

/-- The unit begins text that reads as marked. -/
def IsMark (u : UInt16) : Prop := u = 0xFEFF ∨ u = 0xFFFE

theorem units_swap (us : List UInt16) :
    units true (us.flatMap (unitBytes false)) = (us.map swap, false) := by
  induction us with
  | nil => rfl
  | cons u us ih =>
      have first : unitBytes false u ++ us.flatMap (unitBytes false) =
          u.toUInt8 :: (u >>> 8).toUInt8 :: us.flatMap (unitBytes false) := rfl
      rw [List.flatMap_cons, first, units_cons_cons, ih]
      rfl

theorem IsMark.of_swap (mark : IsMark (swap u)) : IsMark u := by
  obtain ⟨high, low⟩ := toNat_parts u
  have word : u.toNat < 2 ^ 16 := u.toNat_lt
  have swapped : (swap u).toNat = 256 * (u.toNat % 256) + u.toNat / 256 := by
    rw [swap, toNat_unit, if_pos rfl, high, low]
  rw [IsMark, ← UInt16.toNat_inj, ← UInt16.toNat_inj, swapped] at mark
  rw [IsMark, ← UInt16.toNat_inj, ← UInt16.toNat_inj]
  simp only [UInt16.reduceToNat] at mark ⊢
  omega

theorem IsMark.isWhole (mark : IsMark u) : IsWhole u := by
  rcases mark with rfl | rfl <;> exact .inr (by decide)

/-- A half of a pair never gives a character that one unit writes, other than the replacement. -/
theorem exists_ofUnits_half (half : ¬ IsWhole u) (us : List UInt16) :
    ∃ c rest, ofUnits (u :: us) = c :: rest ∧ (c = replacement ∨ 0x10000 ≤ c.toNat) := by
  rw [isWhole_iff, not_not] at half
  cases us with
  | nil => exact ⟨replacement, [], by rw [ofUnits, if_pos half], .inl rfl⟩
  | cons v rest =>
      by_cases both : (isHigh u && isLow v) = true
      · obtain ⟨high, low⟩ := (Bool.and_eq_true _ _).mp both
        refine ⟨pair u v, ofUnits rest, ofUnits_pair high low rest, .inr ?_⟩
        rw [toNat_pair high low]
        omega
      · exact ⟨replacement, ofUnits (v :: rest), by rw [ofUnits, if_neg both, if_pos half],
          .inl rfl⟩

/-- Units that are read in the wrong order never give what they stand for with a mark in front. Each
of them would have to be a mark, and nothing follows the last one. -/
theorem ofUnits_map_swap_ne {x : UInt16} (mark : IsMark x) (us : List UInt16) :
    ofUnits (us.map swap) ≠ x.toUInt32 :: ofUnits us := by
  induction us generalizing x with
  | nil => exact (List.cons_ne_nil _ _).symm
  | cons u us ih =>
      rw [List.map_cons]
      intro same
      by_cases whole : IsWhole (swap u)
      · -- The first unit is the other mark, and what follows it is to be read with that in front.
        rw [ofUnits_whole whole] at same
        obtain ⟨first, rest⟩ := List.cons.inj same
        have swapped : swap u = x := by
          apply UInt16.toNat_inj.mp
          rw [← UInt16.toNat_toUInt32, first, UInt16.toNat_toUInt32]
        have next := IsMark.of_swap (swapped.symm ▸ mark)
        rw [ofUnits_whole next.isWhole] at rest
        exact ih next rest
      · obtain ⟨c, rest, eq, other⟩ := exists_ofUnits_half whole (us.map swap)
        rw [eq] at same
        obtain rfl := (List.cons.inj same).1
        rcases mark with rfl | rfl <;> exact absurd other (by decide)

/-- Text that begins with a mark of its own is not read as it was written. -/
theorem decode_ne_of_isMark (mark : IsMark u) (us : List UInt16) :
    decode ((u :: us).flatMap (unitBytes false)) ≠ ofUnits (u :: us) := by
  rw [List.flatMap_cons, ofUnits_whole mark.isWhole]
  rcases mark with rfl | rfl
  · have marked := decode_mark false (us.flatMap (unitBytes false))
    have plain := units_bytes false us []
    rw [List.append_nil] at plain
    rw [Utf16.mark] at marked
    rw [marked, decodeAs_eq, plain]
    intro same
    have lengths := congrArg List.length same
    simp only [units, List.append_nil, Bool.false_eq_true, if_false, List.length_cons] at lengths
    omega
  · have swapped : unitBytes false 0xFFFE = Utf16.mark true := by decide
    rw [swapped, decode_mark, decodeAs_eq, units_swap]
    simp only [Bool.false_eq_true, if_false, List.append_nil]
    exact ofUnits_map_swap_ne (.inr rfl) us

end Exchanged

section RoundTrip

variable (scalars : ∀ c ∈ cs, c.isScalar = true)

include scalars

theorem decode_encode_unmarked {odd : Text} (short : odd.length ≤ 1)
    (unmarked : ∀ u ∈ (cs.flatMap unitsOf).head?, u ≠ 0xFEFF ∧ u ≠ 0xFFFE) :
    decode (encode false cs ++ odd) = cs ++ decodeAs false odd := by
  have plain := (unmarked_iff (cs.flatMap unitsOf) short).mpr unmarked
  rw [← decodeAs_encode_append false scalars]
  exact decode_unmarked plain

theorem decode_encode_iff : decode (encode false cs) = cs ↔
    ∀ u ∈ (cs.flatMap unitsOf).head?, u ≠ 0xFEFF ∧ u ≠ 0xFFFE := by
  constructor
  · intro same u first
    by_contra mark
    obtain ⟨us, parts⟩ := List.head?_eq_some_iff.mp first
    have whole := ofUnits_flatMap scalars []
    rw [List.append_nil, parts, ofUnits, List.append_nil] at whole
    have isMark : IsMark u := by
      rw [IsMark]
      tauto
    rw [encode, parts] at same
    exact decode_ne_of_isMark isMark us (same.trans whole.symm)
  · intro unmarked
    have read : decode (encode false cs ++ []) = cs ++ decodeAs false [] :=
      decode_encode_unmarked scalars (Nat.zero_le 1) unmarked
    rwa [List.append_nil, decodeAs_eq, units, ofUnits, if_neg Bool.false_ne_true, List.append_nil,
      List.append_nil] at read

end RoundTrip

/-- Decoding gives the characters back that were encoded in either order behind its mark. In little
endian order it also does so without a mark, exactly if the first unit does not read as one. A byte
that is left over adds one replacement character. Whatever the bytes are, characters come out. -/
theorem decode_encode_marked :
    (∀ cs : List CodePoint, (∀ c ∈ cs, c.isScalar = true) →
      (∀ bigEndian, decode (mark bigEndian ++ encode bigEndian cs) = cs ∧
        ∀ b, decode (mark bigEndian ++ encode bigEndian cs ++ [b]) = cs ++ [replacement]) ∧
      (decode (encode false cs) = cs ↔
        ∀ u ∈ (cs.flatMap unitsOf).head?, u ≠ 0xFEFF ∧ u ≠ 0xFFFE) ∧
      ((∀ u ∈ (cs.flatMap unitsOf).head?, u ≠ 0xFEFF ∧ u ≠ 0xFFFE) →
        ∀ b, decode (encode false cs ++ [b]) = cs ++ [replacement])) ∧
    ∀ t : Text, ∀ c ∈ decode t, c.isScalar = true := by
  refine ⟨fun cs scalars => ⟨fun bigEndian => ⟨?_, fun b => ?_⟩, decode_encode_iff scalars,
    fun unmarked b => ?_⟩, isScalar_decode⟩
  · have whole := decodeAs_encode_append bigEndian scalars []
    rw [List.append_nil] at whole
    rw [decode_mark, whole]
    exact List.append_nil cs
  · rw [List.append_assoc, decode_mark, decodeAs_encode_append bigEndian scalars]
    rfl
  · exact decode_encode_unmarked scalars (Nat.le_refl 1) unmarked

/-- A pair in both orders, a pair with a byte left over, and text that begins with the other
mark. -/
theorem decode_encode_marked_pair :
    (∀ c ∈ [0x1F600, 0x61], CodePoint.isScalar c = true) ∧
      (∀ bigEndian, decode (mark bigEndian ++ encode bigEndian [0x1F600, 0x61]) = [0x1F600, 0x61]) ∧
      decode (encode false [0x1F600, 0x61] ++ [0x62]) = [0x1F600, 0x61, replacement] ∧
      decode (encode false [0xFFFE, 0x61]) ≠ [0xFFFE, 0x61] := by
  have scalars : ∀ c ∈ [0x1F600, 0x61], CodePoint.isScalar c = true :=
    List.forall_mem_cons.mpr ⟨rfl, List.forall_mem_singleton.mpr rfl⟩
  have marks : ∀ c ∈ [0xFFFE, 0x61], CodePoint.isScalar c = true :=
    List.forall_mem_cons.mpr ⟨rfl, List.forall_mem_singleton.mpr rfl⟩
  have first : ([0x1F600, 0x61].flatMap unitsOf).head? = some 0xD83D := by decide
  have other : ([0xFFFE, 0x61].flatMap unitsOf).head? = some 0xFFFE := by decide
  refine ⟨scalars, fun bigEndian => ((decode_encode_marked.1 _ scalars).1 bigEndian).1, ?_, ?_⟩
  · refine (decode_encode_marked.1 _ scalars).2.2 ?_ 0x62
    rw [first]
    intro u same
    cases same
    exact ⟨by decide, by decide⟩
  · rw [ne_eq, (decode_encode_marked.1 _ marks).2.1, other]
    exact fun unmarked => (unmarked 0xFFFE rfl).2 rfl

end Utf16

end GoInspect
