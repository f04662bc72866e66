import GoInspect.Proofs.Text.Number
import Mathlib.Data.List.Forall2
import Mathlib.Data.List.TakeWhile
import Mathlib.Data.Nat.Digits.Defs

/-!
# The grammar of literals

A literal is zero, or a decimal number that does not begin with a zero, or digits of another base
behind the mark of that base. A mark in front of nothing is none, so that what `0` and `0x` stand
for is decided by what follows. Literals are read exactly where they denote a number that fits, with
blanks around them or not, and a number that was written in any of the bases is read back.
-/

namespace GoInspect

namespace Text

variable {s t : Text} {base n : Nat}

section Strip

/-- The second text is the first one without the blanks at its ends. -/
def Stripped (s t : Text) : Prop :=
  ∃ front back : Text, s = front ++ (t ++ back) ∧ front.all isBlank = true ∧
    back.all isBlank = true ∧ (t = [] ∨ Solid t)

/-- What is left behind leading blanks does not begin with one. -/
theorem head?_dropWhile_isBlank {t : Text} (some : t.dropWhile isBlank ≠ []) :
    (t.dropWhile isBlank).head?.any fun b => !isBlank b := by
  have first := List.head?_dropWhile_not isBlank t
  rw [List.head?_eq_some_head some] at first ⊢
  rw [Option.any_some]
  exact congrArg (! ·) first

theorem all_takeWhile_isBlank (t : Text) : (t.takeWhile isBlank).all isBlank = true :=
  List.all_eq_true.mpr fun _ mem => List.mem_takeWhile_imp mem

theorem stripped_trim (s : Text) : Stripped s s.trim := by
  have front : s = s.takeWhile isBlank ++ s.trimStart := List.takeWhile_append_dropWhile.symm
  have back : s.trimStart = s.trim ++ (s.trimStart.reverse.takeWhile isBlank).reverse := by
    rw [trim, trimEnd, ← List.reverse_append, List.takeWhile_append_dropWhile, List.reverse_reverse]
  refine ⟨_, _, front.trans (congrArg _ back), all_takeWhile_isBlank s, ?_, ?_⟩
  · rw [List.all_reverse]
    exact all_takeWhile_isBlank _
  · rw [or_iff_not_imp_left]
    intro some
    have some' : s.trimStart.reverse.dropWhile isBlank ≠ [] := mt List.reverse_eq_nil_iff.mpr some
    have some'' : s.trimStart ≠ [] := by
      rw [back]
      exact List.append_ne_nil_of_left_ne_nil some _
    constructor
    · rw [← List.head?_append_of_ne_nil _ some, ← back]
      exact head?_dropWhile_isBlank some''
    · rw [trim, trimEnd, List.getLast?_reverse]
      exact head?_dropWhile_isBlank some'

/-- Trimming strips a text, and there is no other way to do it. -/
theorem stripped_iff : Stripped s t ↔ s.trim = t := by
  constructor
  · rintro ⟨front, back, rfl, blankFront, blankBack, rfl | solid⟩
    · have blank : (front ++ ([] ++ back)).all isBlank = true := by
        rw [List.nil_append, List.all_append, blankFront, blankBack]
        rfl
      rw [trim, trimStart, List.dropWhile_eq_nil_iff.mpr (List.all_eq_true.mp blank)]
      rfl
    · exact solid.trim_between blankFront blankBack
  · rintro rfl
    exact stripped_trim s

end Strip

section Grammar

/-- The byte is a character of the digit. From ten on these are letters, small or capital. -/
def IsDigit (b : UInt8) (d : Nat) : Prop :=
  d < 10 ∧ b.toNat = '0'.toNat + d ∨
    10 ≤ d ∧ d < 16 ∧ (b.toNat = 'a'.toNat + (d - 10) ∨ b.toNat = 'A'.toNat + (d - 10))

/-- The text consists of at least one digit of the base, and these are the digits of the number. -/
def Numeral (base : Nat) (t : Text) (n : Nat) : Prop :=
  t ≠ [] ∧ ∃ digits : List Nat,
    List.Forall₂ (fun b d => d < base ∧ IsDigit b d) t digits ∧ Nat.ofDigits base digits.reverse = n

/-- The text is a literal of the number. -/
inductive Literal : Text → Nat → Prop where
  | zero : Literal [ascii '0'] 0
  | decimal {t : Text} {n : Nat} (numeral : Numeral 10 t n) (first : t.head? ≠ some (ascii '0')) :
      Literal t n
  | hexadecimal {mark : UInt8} {t : Text} {n : Nat} (marked : mark = ascii 'x' ∨ mark = ascii 'X')
      (numeral : Numeral 16 t n) : Literal (ascii '0' :: mark :: t) n
  | binary {mark : UInt8} {t : Text} {n : Nat} (marked : mark = ascii 'b' ∨ mark = ascii 'B')
      (numeral : Numeral 2 t n) : Literal (ascii '0' :: mark :: t) n
  | octal {t : Text} {n : Nat} (numeral : Numeral 8 t n) : Literal (ascii '0' :: t) n

theorem digitValue_eq_iff {b : UInt8} {d : Nat} (small : d < 16) :
    digitValue b = d ↔ IsDigit b d := by
  simp only [digitValue, IsDigit, UInt8.le_iff_toNat_le, Char.reduceToNat, UInt8.reduceToNat]
  split
  · omega
  · split
    · omega
    · split
      · omega
      · omega

theorem ofDigits_reverse (base : Nat) (digits : List Nat) :
    Nat.ofDigits base digits.reverse = digits.foldl (fun value d => value * base + d) 0 := by
  rw [Nat.ofDigits_eq_foldr, List.foldr_reverse]
  simp only [Nat.cast_id, Nat.add_comm, Nat.mul_comm]

/-- Reading digits from a value on gives the value that they extend it to. -/
theorem foldlM_digitValue_eq_some_iff (few : base ≤ 16) {start : Nat} :
    (t.foldlM (fun value b =>
        if digitValue b < base then some (value * base + digitValue b) else none) start) = some n ↔
      ∃ digits : List Nat, List.Forall₂ (fun b d => d < base ∧ IsDigit b d) t digits ∧
        digits.foldl (fun value d => value * base + d) start = n := by
  induction t generalizing start with
  | nil =>
      rw [List.foldlM_nil]
      simp only [List.forall₂_nil_left_iff, exists_eq_left, List.foldl_nil]
      exact Option.some_inj
  | cons b rest ih =>
      rw [List.foldlM_cons]
      constructor
      · intro read
        split at read
        · next small =>
          obtain ⟨digits, shown, value⟩ := ih.mp read
          have digit : IsDigit b (digitValue b) := (digitValue_eq_iff (by omega)).mp rfl
          exact ⟨_, .cons ⟨small, digit⟩ shown, value⟩
        · cases read
      · rintro ⟨_, _ | ⟨⟨small, digit⟩, shown⟩, value⟩
        rw [← digitValue_eq_iff (by omega)] at digit
        subst digit
        rw [if_pos small]
        exact ih.mpr ⟨_, shown, value⟩

theorem natOfDigits?_eq_some_iff (few : base ≤ 16) :
    natOfDigits? base t = some n ↔ Numeral base t n := by
  rw [natOfDigits?, Numeral]
  simp only [ofDigits_reverse]
  rw [← foldlM_digitValue_eq_some_iff few]
  cases t with
  | nil => simp
  | cons b rest =>
      rw [List.isEmpty_cons, if_neg Bool.false_ne_true, and_iff_right (List.cons_ne_nil _ _)]
      rfl

theorem literalBase_of_head?_ne (first : t.head? ≠ some (ascii '0')) : literalBase t = (10, t) := by
  cases t with
  | nil => rfl
  | cons b rest => exact literalBase_of_ne fun zero => first (congrArg some zero)

theorem literalBase_zero_cons (b c : UInt8) (rest : Text) :
    literalBase (ascii '0' :: b :: c :: rest) =
      if b = ascii 'x' ∨ b = ascii 'X' then (16, c :: rest)
      else if b = ascii 'b' ∨ b = ascii 'B' then (2, c :: rest)
      else (8, b :: c :: rest) :=
  rfl

/-- No mark of a base is an octal digit. -/
theorem Numeral.unmarked {b : UInt8} (numeral : Numeral 8 (b :: t) n) :
    ¬(b = ascii 'x' ∨ b = ascii 'X') ∧ ¬(b = ascii 'b' ∨ b = ascii 'B') := by
  obtain ⟨-, _, shown, -⟩ := numeral
  obtain ⟨d, _, ⟨small, digit⟩, -⟩ := List.forall₂_cons_left_iff.mp shown
  rw [← digitValue_eq_iff (by omega)] at digit
  rw [← digit] at small
  constructor <;> rintro (rfl | rfl) <;> exact absurd small (by decide)

theorem Numeral.literalBase_octal (numeral : Numeral 8 t n) :
    literalBase (ascii '0' :: t) = (8, t) := by
  obtain ⟨b, rest, rfl⟩ := List.exists_cons_of_ne_nil numeral.1
  cases rest with
  | nil => rfl
  | cons c rest => rw [literalBase_zero_cons, if_neg numeral.unmarked.1, if_neg numeral.unmarked.2]

/-- How a text begins decides in which way it can be a literal. -/
theorem literal_iff : Literal t n ↔ Numeral (literalBase t).1 (literalBase t).2 n := by
  constructor
  · intro literal
    cases literal with
    | zero => exact (natOfDigits?_eq_some_iff (by decide)).mp rfl
    | decimal numeral first => rwa [literalBase_of_head?_ne first]
    | hexadecimal marked numeral =>
        obtain ⟨c, rest, rfl⟩ := List.exists_cons_of_ne_nil numeral.1
        rwa [literalBase_zero_cons, if_pos marked]
    | binary marked numeral =>
        obtain ⟨c, rest, rfl⟩ := List.exists_cons_of_ne_nil numeral.1
        rw [literalBase_zero_cons, if_neg, if_pos marked]
        · exact numeral
        · rcases marked with rfl | rfl <;> decide
    | octal numeral => rwa [numeral.literalBase_octal]
  · intro numeral
    by_cases first : t.head? = some (ascii '0')
    · obtain ⟨rest, rfl⟩ := List.head?_eq_some_iff.mp first
      match rest with
      | [] =>
          have zero : natOfDigits? 10 [ascii '0'] = some 0 := rfl
          obtain rfl := Option.some.inj
            (zero.symm.trans ((natOfDigits?_eq_some_iff (by decide)).mpr numeral))
          exact .zero
      | [b] => exact .octal numeral
      | b :: c :: rest =>
          rw [literalBase_zero_cons] at numeral
          split at numeral
          · next marked => exact .hexadecimal marked numeral
          · split at numeral
            · next marked => exact .binary marked numeral
            · exact .octal numeral
    · rw [literalBase_of_head?_ne first] at numeral
      exact .decimal numeral first

theorem literalBase_le (t : Text) : (literalBase t).1 ≤ 16 := by
  unfold literalBase
  split
  · split
    · exact Nat.le_refl 16
    · split <;> exact Nat.le_of_ble_eq_true rfl
  · exact Nat.le_of_ble_eq_true rfl
  · exact Nat.le_of_ble_eq_true rfl

theorem natLiteral?_eq_some_iff : natLiteral? s = some n ↔ Literal s.trim n := by
  rw [literal_iff, ← natOfDigits?_eq_some_iff (literalBase_le _)]
  rfl

theorem toUInt64?_eq_some_iff {v : UInt64} : s.toUInt64? = some v ↔ Literal s.trim v.toNat := by
  rw [toUInt64?, unsigned?, Option.map_eq_some_iff, ← natLiteral?_eq_some_iff]
  simp only [Option.filter_eq_some_iff, decide_eq_true_iff]
  constructor
  · rintro ⟨n, ⟨read, fits⟩, rfl⟩
    rwa [UInt64.toNat_ofNat_of_lt' fits]
  · intro read
    exact ⟨_, ⟨read, v.toNat_lt⟩, UInt64.ofNat_toNat⟩

end Grammar

section Printed

variable (n)

theorem numeral_ofNat (two : 2 ≤ base) (few : base ≤ 16) : Numeral base (ofNat base n) n :=
  (natOfDigits?_eq_some_iff few).mp (natOfDigits?_ofNat two (by omega) n)

theorem literal_decimal : Literal (decimal n) n := by
  have numeral := numeral_ofNat n (by decide : 2 ≤ 10) (by decide)
  rwa [literal_iff, literalBase_decimal]

theorem literal_hex : Literal (hex n) n :=
  .hexadecimal (.inl rfl) (numeral_ofNat n (by decide) (by decide))

theorem literal_binary : Literal (utf8 "0b" ++ ofNat 2 n) n :=
  .binary (.inl rfl) (numeral_ofNat n (by decide) (by decide))

theorem literal_octal : Literal (utf8 "0" ++ ofNat 8 n) n :=
  .octal (numeral_ofNat n (by decide) (by decide))

/-- There is no blank in a number behind the mark of its base. -/
theorem solid_append_ofNat (two : 2 ≤ base) (few : base ≤ 16) {mark : Text}
    (plain : mark.any isBlank = false) : Solid (mark ++ ofNat base n) := by
  have solid : ∀ b ∈ mark, isBlank b = false := fun b mem =>
    Bool.eq_false_iff.mpr (List.any_eq_false.mp plain b mem)
  have digits : ∀ d < 16, isBlank (digitByte d) = false := by decide
  refine solid_of_forall (List.append_ne_nil_of_right_ne_nil _ (numeral_ofNat n two few).1) ?_
  exact List.forall_mem_append.mpr ⟨solid, forall_ofNat two fun d lt => digits d (by omega)⟩

end Printed

theorem Literal.toUInt64? {v : UInt64} (literal : Literal t v.toNat) (solid : Solid t) :
    t.toUInt64? = some v := by
  rwa [toUInt64?_eq_some_iff, solid.trim]

/-- Text is read as a literal of 64 bits exactly if, without the blanks at its ends, it is a literal
of a number that fits, and then as that number. A number that is written in decimal, or behind the
mark of its base in hexadecimal, binary or octal, is read back. -/
theorem toUInt64?_literal :
    (∀ (s : Text) (v : UInt64), s.toUInt64? = some v ↔ ∃ t, Stripped s t ∧ Literal t v.toNat) ∧
    (∀ s : Text, s.toUInt64?.isSome = true ↔ ∃ t n, Stripped s t ∧ Literal t n ∧ n < 2 ^ 64) ∧
    ∀ v : UInt64, (decimal v.toNat).toUInt64? = some v ∧ (hex v.toNat).toUInt64? = some v ∧
      (utf8 "0b" ++ ofNat 2 v.toNat).toUInt64? = some v ∧
      (utf8 "0" ++ ofNat 8 v.toNat).toUInt64? = some v := by
  have reads (s : Text) (v : UInt64) :
      s.toUInt64? = some v ↔ ∃ t, Stripped s t ∧ Literal t v.toNat := by
    simp only [toUInt64?_eq_some_iff, stripped_iff, exists_eq_left']
  refine ⟨reads, fun s => ?_, fun v => ⟨?_, ?_, ?_, ?_⟩⟩
  · rw [Option.isSome_iff_exists]
    simp only [reads]
    constructor
    · rintro ⟨v, t, stripped, literal⟩
      exact ⟨t, v.toNat, stripped, literal, v.toNat_lt⟩
    · rintro ⟨t, n, stripped, literal, fits⟩
      refine ⟨UInt64.ofNat n, t, stripped, ?_⟩
      rwa [UInt64.toNat_ofNat_of_lt' fits]
  · exact (literal_decimal _).toUInt64? (solid_decimal _)
  · exact (literal_hex _).toUInt64? (solid_append_ofNat _ (by decide) (by decide) (by decide))
  · exact (literal_binary _).toUInt64? (solid_append_ofNat _ (by decide) (by decide) (by decide))
  · exact (literal_octal _).toUInt64? (solid_append_ofNat _ (by decide) (by decide) (by decide))

/-- The mark of a base with nothing behind it is no digit, and the greatest literal is 2^64 - 1. -/
example : (utf8 "0x").toUInt64? = none ∧ (utf8 " 0\t").toUInt64? = some 0 ∧
    (utf8 "0xffffffffffffffff").toUInt64? = some 0xFFFFFFFFFFFFFFFF ∧
    (utf8 "02000000000000000000000").toUInt64? = none := by
  decide

end Text

end GoInspect
