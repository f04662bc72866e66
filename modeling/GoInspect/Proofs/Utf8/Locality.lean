import GoInspect.Proofs.Utf8.Table

/-!
# Errors stay local

A sequence ends at the latest in front of a byte that continues nothing. Text that begins with such
a byte is decoded as if it stood alone, whatever stands before it, since a sequence that is cut off
there takes nothing of it. Of text that begins with a continuation byte this is not so. Well-formed
text can be cut behind each of its characters.
-/

namespace GoInspect

namespace Utf8

open CodePoint (encode encodeAll)

/-- The text does not begin inside a sequence. -/
def StartsFresh (t : Text) : Prop := ∀ b ∈ t.head?, isContinuation b = false

variable {a b : Text}

theorem startsFresh_nil : StartsFresh [] := fun _ none => nomatch none

theorem isContinuation_eq_false_iff {x : UInt8} :
    isContinuation x = false ↔ x < 0x80 ∨ 0xBF < x := by
  obtain ⟨k, small, rfl⟩ := exists_lt_ofNat x.toNat_lt
  revert k
  decide +kernel

theorem startsFresh_iff : StartsFresh b ↔ ∀ x ∈ b.head?, x < 0x80 ∨ 0xBF < x := by
  simp only [StartsFresh, isContinuation_eq_false_iff]

section Scanning

/-- No byte of a text that begins fresh continues what stands before it. -/
theorem takeWhile_append_of_fresh (fresh : StartsFresh b) :
    (a ++ b).takeWhile isContinuation = a.takeWhile isContinuation := by
  induction a with
  | nil =>
      cases b with
      | nil => rfl
      | cons x rest => exact List.takeWhile_cons_of_neg (Bool.eq_false_iff.mp (fresh x rfl))
  | cons x rest ih => rw [List.cons_append, List.takeWhile_cons, List.takeWhile_cons, ih]

theorem StartsFresh.take (fresh : StartsFresh b) (n : Nat) : StartsFresh (b.take n) := by
  cases n with
  | zero => exact startsFresh_nil
  | succ n =>
      intro x first
      rw [List.head?_take, if_neg n.succ_ne_zero] at first
      exact fresh x first

theorem continuations_append (fresh : StartsFresh b) (n : Nat) :
    continuations n (a ++ b) = continuations n a := by
  rw [continuations, List.take_append, takeWhile_append_of_fresh (fresh.take _), continuations]

theorem length_continuations_le (n : Nat) (t : Text) : (continuations n t).length ≤ t.length :=
  ((List.takeWhile_sublist _).trans (List.take_sublist n t)).length_le

/-- Text is decoded by itself in front of text that begins fresh, and so is that. -/
theorem decode_append (fresh : StartsFresh b) : decode (a ++ b) = decode a ++ decode b := by
  fun_induction decode a with
  | case1 => rfl
  | case2 x rest short ih => rw [List.cons_append, decode, if_pos short, ih, List.cons_append]
  | case3 x rest long announces ih =>
      rw [List.cons_append, decode, if_neg long, announces]
      simp only [ih, List.cons_append]
  | case4 x rest long lead announces tail ih =>
      have same : continuations lead.continuations (rest ++ b) = tail :=
        continuations_append fresh _
      have inside : tail.length ≤ rest.length := length_continuations_le _ rest
      rw [List.cons_append, decode, if_neg long, announces]
      simp only [same, List.drop_append_of_le_length inside, ih, List.cons_append]

end Scanning

section Inside

theorem lead?_continuation {x : UInt8} (continues : isContinuation x = true) :
    ¬ x < 0x80 ∧ lead? x = none := by
  obtain ⟨k, small, rfl⟩ := exists_lt_ofNat x.toNat_lt
  revert k
  decide +kernel

/-- A continuation byte is an error of its own where a text begins, and part of a sequence behind a
lead byte. -/
theorem length_decode_of_continuation {x : UInt8} (continues : isContinuation x = true)
    (rest : Text) :
    (decode (0xC3 :: x :: rest)).length = (decode rest).length + 1 ∧
      (decode (x :: rest)).length = (decode rest).length + 1 := by
  obtain ⟨long, announces⟩ := lead?_continuation continues
  have taken : continuations 1 (x :: rest) = [x] := by
    rw [continuations, List.take_succ_cons, List.take_zero, List.takeWhile_cons_of_pos continues,
      List.takeWhile_nil]
  have leads : lead? 0xC3 = some ⟨1, 3, 0x80⟩ := by decide
  constructor
  · rw [decode, if_neg (by decide), leads]
    simp only [taken, List.length_cons, List.length_nil, Nat.zero_add, List.drop_succ_cons,
      List.drop_zero]
  · rw [decode, if_neg long, announces, List.length_cons]

theorem decode_append_iff : (∀ a, decode (a ++ b) = decode a ++ decode b) ↔ StartsFresh b := by
  constructor
  · intro all x first
    obtain ⟨rest, rfl⟩ := List.head?_eq_some_iff.mp first
    by_contra continues
    -- One lead byte that waits for a continuation byte is enough to tell the difference.
    obtain ⟨behind, alone⟩ :=
      length_decode_of_continuation (Bool.not_eq_false _ ▸ continues) rest
    have lengths := congrArg List.length (all [0xC3])
    have one : (decode [0xC3]).length = 1 := by decide +kernel
    rw [List.singleton_append, List.length_append, behind, alone, one] at lengths
    omega
  · exact fun fresh a => decode_append fresh

end Inside

section WellFormed

theorem WellFormed.append (h : WellFormed a) (h' : WellFormed b) : WellFormed (a ++ b) := by
  obtain ⟨cs, scalars, rfl⟩ := h
  obtain ⟨ds, scalars', rfl⟩ := h'
  exact ⟨cs ++ ds, List.forall_mem_append.mpr ⟨scalars, scalars'⟩, List.flatMap_append⟩

/-- Well-formed text is decoded by itself, whatever stands behind it. -/
theorem WellFormed.decode_append (h : WellFormed a) (b : Text) :
    decode (a ++ b) = decode a ++ decode b := by
  obtain ⟨cs, scalars, rfl⟩ := h
  rw [decode_encodeAll scalars]
  induction cs with
  | nil => rfl
  | cons c rest ih =>
      obtain ⟨first, others⟩ := List.forall_mem_cons.mp scalars
      rw [encodeAll, List.flatMap_cons, List.append_assoc, decode_encode_append first]
      exact congrArg (c :: ·) (ih others)

theorem decode_encode {c : CodePoint} (scalar : c.isScalar = true) : decode (encode c) = [c] := by
  have whole := decode_encode_append scalar []
  rwa [List.append_nil, decode] at whole

/-- An ASCII byte among the bytes of a character is the only one. -/
theorem eq_of_mem_encode {c : CodePoint} (scalar : c.isScalar = true) {x : UInt8}
    (short : x < 0x80) (mem : x ∈ encode c) : c = x.toUInt32 := by
  obtain ⟨before, after, parts⟩ := List.append_of_mem mem
  have fresh : StartsFresh (x :: after) := by
    intro first listed
    cases listed
    exact isContinuation_eq_false_iff.mpr (.inl short)
  have read := decode_encode scalar
  rw [parts, decode_append fresh, decode, if_pos short] at read
  have found : x.toUInt32 ∈ [c] := read ▸ List.mem_append_right _ List.mem_cons_self
  exact (List.mem_singleton.mp found).symm

end WellFormed

section Ascii

variable {t : Text} (short : ∀ x ∈ t, x < 0x80)

include short

theorem isScalar_of_mem_ascii : ∀ c ∈ t.map UInt8.toUInt32, CodePoint.isScalar c = true :=
  List.forall_mem_map.mpr fun x mem => isScalar_ascii (short x mem)

theorem encodeAll_ascii : encodeAll (t.map UInt8.toUInt32) = t := by
  rw [encodeAll, List.flatMap_map]
  induction t with
  | nil => rfl
  | cons x rest ih =>
      obtain ⟨first, others⟩ := List.forall_mem_cons.mp short
      have small : x.toUInt32 < 0x80 := by
        rw [UInt32.lt_iff_toNat_lt, UInt8.toNat_toUInt32]
        exact UInt8.lt_iff_toNat_lt.mp first
      have one : encode x.toUInt32 = [x] := by rw [encode, if_pos small, UInt8.toUInt8_toUInt32]
      rw [List.flatMap_cons, one, ih others, List.singleton_append]

theorem wellFormed_ascii : WellFormed t :=
  ⟨t.map UInt8.toUInt32, isScalar_of_mem_ascii short, encodeAll_ascii short⟩

theorem decode_ascii : decode t = t.map UInt8.toUInt32 := by
  have read := decode_encodeAll (isScalar_of_mem_ascii short)
  rwa [encodeAll_ascii short] at read

end Ascii

/-- Encoding tells lists of characters apart. -/
theorem encodeAll_inj {cs ds : List CodePoint} (first : ∀ c ∈ cs, c.isScalar = true)
    (second : ∀ c ∈ ds, c.isScalar = true) : encodeAll cs = encodeAll ds ↔ cs = ds := by
  constructor
  · intro same
    rw [← decode_encodeAll first, same, decode_encodeAll second]
  · exact congrArg encodeAll

theorem lenient_append_iff :
    lenient (a ++ b) = lenient a ++ lenient b ↔ decode (a ++ b) = decode a ++ decode b := by
  have parts : lenient a ++ lenient b = encodeAll (decode a ++ decode b) :=
    List.flatMap_append.symm
  have scalars : ∀ c ∈ decode a ++ decode b, c.isScalar = true :=
    List.forall_mem_append.mpr ⟨isScalar_of_mem_decode, isScalar_of_mem_decode⟩
  rw [parts, lenient, encodeAll_inj isScalar_of_mem_decode scalars]

/-- Well-formed text begins with its first character, and goes on behind it. -/
theorem IsUtf8.exists_dropFirst {t : Text} (formed : IsUtf8 t) (some : t ≠ []) :
    ∃ c, t = encode c ++ dropFirst t ∧ decode t = c :: decode (dropFirst t) := by
  obtain ⟨cs, scalars, rfl⟩ := wellFormed_iff.mpr formed
  cases cs with
  | nil => exact absurd rfl some
  | cons c rest =>
      obtain ⟨first, others⟩ := List.forall_mem_cons.mp scalars
      have behind : dropFirst (encodeAll (c :: rest)) = encodeAll rest :=
        WellFormed.dropFirst ⟨rest, others, rfl⟩ c
      exact ⟨c, by rw [behind]; rfl, by rw [behind]; exact decode_encode_append first _⟩

/-- Decoding distributes over a concatenation, whatever stands first, exactly if what follows does
not begin with a continuation byte. The same holds of text that is made well formed. From
well-formed text the first character is dropped with all of its bytes and no other one. -/
theorem decode_append_distributes :
    (∀ b : Text,
      ((∀ a, decode (a ++ b) = decode a ++ decode b) ↔ ∀ x ∈ b.head?, x < 0x80 ∨ 0xBF < x) ∧
      ((∀ a, lenient (a ++ b) = lenient a ++ lenient b) ↔ ∀ x ∈ b.head?, x < 0x80 ∨ 0xBF < x)) ∧
    ∀ t : Text, IsUtf8 t → t ≠ [] →
      ∃ c, t = encode c ++ dropFirst t ∧ decode t = c :: decode (dropFirst t) := by
  refine ⟨fun b => ?_, fun t formed some => formed.exists_dropFirst some⟩
  simp only [lenient_append_iff, ← startsFresh_iff, decode_append_iff, and_self]

/-- A sequence of three bytes that is cut off after two, in front of one of two bytes. -/
theorem decode_append_distributes_cutOff :
    decode ([0xE2, 0x82] ++ [0xC3, 0xA9]) = decode [0xE2, 0x82] ++ decode [0xC3, 0xA9] ∧
      IsUtf8 [0xC3, 0xA9] ∧ decode [0xC3, 0xA9] = 0xE9 :: decode (dropFirst [0xC3, 0xA9]) := by
  have formed : IsUtf8 [0xC3, 0xA9] :=
    wellFormed_iff.mp ⟨[0xE9], List.forall_mem_singleton.mpr rfl, by decide⟩
  have fresh : ∀ x ∈ ([0xC3, 0xA9] : Text).head?, x < 0x80 ∨ 0xBF < x := by
    intro x first
    cases first
    exact .inr (by decide)
  refine ⟨(decode_append_distributes.1 [0xC3, 0xA9]).1.mpr fresh [0xE2, 0x82], formed, ?_⟩
  obtain ⟨c, _, first⟩ := decode_append_distributes.2 _ formed (List.cons_ne_nil _ _)
  have alone : decode [0xC3, 0xA9] = [0xE9] := by decide +kernel
  obtain ⟨rfl, _⟩ := List.cons.inj (alone.symm.trans first)
  exact first

end Utf8

end GoInspect
