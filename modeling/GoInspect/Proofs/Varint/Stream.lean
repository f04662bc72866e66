import GoInspect.Proofs.Varint

/-!
# Numbers in a row

Numbers stand one behind the other with nothing between them. Where a number ends is told by its own
bytes: each of them but the last says that another follows, and the last does not, or is the fifth.
So a row of numbers is read back whatever stands around it, and a read fails only where the block
ends too early.
-/

namespace GoInspect

namespace Varint

variable {b : Bytes} {room offset next value : Nat}

/-- What a reader takes for a number where it takes at most `room` bytes, and the number. -/
inductive Numeral : (room : Nat) → List UInt8 → (value : Nat) → Prop where
  /-- No other byte is taken, although the one before says that another follows. -/
  | cut : Numeral 0 [] 0
  | last {room : Nat} {byte : UInt8} (ends : byte < 0x80) : Numeral (room + 1) [byte] byte.toNat
  | more {room value : Nat} {byte : UInt8} {rest : List UInt8} (goesOn : ¬byte < 0x80)
      (others : Numeral room rest value) :
      Numeral (room + 1) (byte :: rest) (byte.toNat - 0x80 + 0x80 * value)

theorem Numeral.length_le {bytes : List UInt8} (h : Numeral room bytes value) :
    bytes.length ≤ room := by
  induction h with
  | cut => exact Nat.le_refl 0
  | last => exact Nat.le_add_left 1 _
  | more _ _ ih => exact Nat.succ_le_succ ih

/-- A read takes a numeral that stands at its offset. -/
theorem readGroups?_eq_some_iff : readGroups? b room offset = some (value, next) ↔
    ∃ bytes, Numeral room bytes value ∧ b.Holds offset bytes ∧ next = offset + bytes.length := by
  -- A numeral and a read lose their first byte together, and with it one byte of room.
  induction room generalizing offset value next with
  | zero =>
      constructor
      · rintro ⟨⟩
        exact ⟨[], .cut, List.nil_prefix, rfl⟩
      · rintro ⟨_, ⟨⟩, _, rfl⟩
        rfl
  | succ room ih =>
      constructor
      · intro h
        unfold readGroups? at h
        split at h
        · cases h
        · next byte here =>
          split at h
          · next ends =>
            cases h
            exact ⟨[byte], .last ends, Bytes.holds_cons_iff.mpr ⟨here, List.nil_prefix⟩, rfl⟩
          · next goesOn =>
            obtain ⟨⟨others, behind⟩, read, eq⟩ := Option.map_eq_some_iff.mp h
            cases eq
            obtain ⟨rest, numeral, stands, rfl⟩ := ih.mp read
            refine ⟨byte :: rest, .more goesOn numeral, Bytes.holds_cons_iff.mpr ⟨here, stands⟩, ?_⟩
            rw [List.length_cons, Nat.add_assoc, Nat.add_comm 1]
      · rintro ⟨bytes, numeral, stands, rfl⟩
        cases numeral with
        | last ends =>
            rw [readGroups?, stands.head]
            exact if_pos ends
        | more goesOn others =>
            rw [readGroups?, stands.head]
            simp only [goesOn, if_false, ih.mpr ⟨_, others, stands.tail, rfl⟩, Option.map_some,
              List.length_cons, Nat.add_assoc, Nat.add_comm 1]

theorem goesOn_iff (byte : UInt8) : byte &&& 0x80 ≠ 0 ↔ ¬byte < 0x80 := by
  have bit : ∀ n < 256, n.toUInt8 &&& 0x80 ≠ 0 ↔ ¬n.toUInt8 < 0x80 := by decide +kernel
  have same : byte.toNat.toUInt8 = byte := by simp
  rw [← same]
  exact bit _ byte.toNat_lt

/-- A read fails exactly if the bytes that are left are too few and none of them is a last one. -/
theorem readGroups?_eq_none_iff : readGroups? b room offset = none ↔
    (b.toList.drop offset).length < room ∧ ∀ byte ∈ b.toList.drop offset, byte &&& 0x80 ≠ 0 := by
  induction room generalizing offset with
  | zero => exact ⟨nofun, fun h => absurd h.1 (Nat.not_lt_zero _)⟩
  | succ room ih =>
      unfold readGroups?
      split
      · next out =>
        have nothing : b.toList.drop offset = [] := by
          rwa [List.drop_eq_nil_iff, Array.length_toList, ← Array.getElem?_eq_none_iff]
        simp [nothing]
      · next byte here =>
        obtain ⟨inside, rfl⟩ := Array.getElem?_eq_some_iff.mp here
        rw [List.drop_eq_getElem_cons (Array.length_toList ▸ inside), Array.getElem_toList,
          List.length_cons, Nat.succ_lt_succ_iff, List.forall_mem_cons, goesOn_iff]
        split
        · next ends => simp [ends]
        · next goesOn => simp [goesOn, ih]

section Read

variable {other : Bytes} {place : Nat} {number : UInt32}

theorem read?_eq_some_iff : read? b offset = some (number, next) ↔
    ∃ bytes n, Numeral maxGroups bytes n ∧ b.Holds offset bytes ∧ number = UInt32.ofNat n ∧
      next = offset + bytes.length := by
  simp only [read?, Option.map_eq_some_iff, Prod.exists, readGroups?_eq_some_iff, Prod.mk.injEq]
  constructor
  · rintro ⟨n, _, ⟨bytes, numeral, stands, rfl⟩, rfl, rfl⟩
    exact ⟨bytes, n, numeral, stands, rfl, rfl⟩
  · rintro ⟨bytes, n, numeral, stands, rfl, rfl⟩
    exact ⟨n, _, ⟨bytes, numeral, stands, rfl⟩, rfl, rfl⟩

theorem read?_eq_none_iff : read? b offset = none ↔
    (b.toList.drop offset).length < maxGroups ∧
      ∀ byte ∈ b.toList.drop offset, byte &&& 0x80 ≠ 0 := by
  rw [read?, Option.map_eq_none_iff, readGroups?_eq_none_iff]

theorem next_le_of_read? (h : read? b offset = some (number, next)) :
    next ≤ offset + maxGroups := by
  obtain ⟨bytes, n, numeral, _, _, rfl⟩ := read?_eq_some_iff.mp h
  exact Nat.add_le_add_left numeral.length_le offset

/-- The same bytes are read as the same number wherever they stand. -/
theorem read?_of_slice_eq (h : read? b offset = some (number, next))
    (same : other.slice place (next - offset) = b.slice offset (next - offset)) :
    read? other place = some (number, place + (next - offset)) := by
  obtain ⟨bytes, n, numeral, stands, rfl, rfl⟩ := read?_eq_some_iff.mp h
  rw [Nat.add_sub_cancel_left] at same ⊢
  rw [Bytes.holds_iff_slice, ← same, ← Bytes.holds_iff_slice] at stands
  exact read?_eq_some_iff.mpr ⟨bytes, n, numeral, stands, rfl, rfl⟩

/-- A number stays where more bytes follow the block. -/
theorem read?_append (h : read? b offset = some (number, next)) (more : Bytes) :
    read? (b ++ more) offset = some (number, next) := by
  obtain ⟨bytes, n, numeral, stands, rfl, rfl⟩ := read?_eq_some_iff.mp h
  exact read?_eq_some_iff.mpr ⟨bytes, n, numeral, stands.append_right more, rfl, rfl⟩

end Read

section Rows

variable {α : Type} {read read' : Nat → Option (α × Nat)} {count behind : Nat}
variable {a : α} {rest : List α}

/-- What `count` reads give, each at the offset behind the one before, and the offset behind all. -/
def readMany? (read : Nat → Option (α × Nat)) : (count offset : Nat) → Option (List α × Nat)
  | 0, offset => some ([], offset)
  | count + 1, offset =>
    match read offset with
    | none => none
    | some (a, next) => (readMany? read count next).map fun (rest, behind) => (a :: rest, behind)

theorem readMany?_cons_iff : readMany? read (count + 1) offset = some (a :: rest, behind) ↔
    ∃ next, read offset = some (a, next) ∧ readMany? read count next = some (rest, behind) := by
  rw [readMany?]
  cases here : read offset with
  | none => simp
  | some first =>
      obtain ⟨first, next⟩ := first
      simp only [Option.map_eq_some_iff, Prod.exists, Prod.mk.injEq, List.cons.injEq,
        Option.some.injEq]
      constructor
      · rintro ⟨_, _, others, ⟨rfl, rfl⟩, rfl⟩
        exact ⟨next, ⟨rfl, rfl⟩, others⟩
      · rintro ⟨_, ⟨rfl, rfl⟩, others⟩
        exact ⟨_, _, others, ⟨rfl, rfl⟩, rfl⟩

theorem readMany?_mono {items : List α}
    (keeps : ∀ offset result, read offset = some result → read' offset = some result)
    (h : readMany? read items.length offset = some (items, behind)) :
    readMany? read' items.length offset = some (items, behind) := by
  induction items generalizing offset with
  | nil => exact h
  | cons a rest ih =>
      obtain ⟨next, first, others⟩ := readMany?_cons_iff.mp h
      exact readMany?_cons_iff.mpr ⟨next, keeps offset _ first, ih others⟩

theorem readMany?_flatMap_encode {values : List UInt32} {place : Nat}
    (h : b.Holds place (values.flatMap encode)) :
    readMany? (read? b) values.length place =
      some (values, place + (values.flatMap encode).length) := by
  induction values generalizing place with
  | nil => rfl
  | cons value rest ih =>
      obtain ⟨first, others⟩ := h.append
      rw [List.flatMap_cons, List.length_append, ← Nat.add_assoc, List.length_cons]
      exact readMany?_cons_iff.mpr ⟨_, read?_encode first, ih others⟩

end Rows

/-- Numbers that were written in a row are read back one by one whatever stands around them, and the
last read ends where the row does. A read that succeeds takes one byte at least and five at most,
all of them inside the block, and gives the same wherever the same bytes stand. It fails exactly if
fewer than five bytes are left and each of them says that another follows. -/
theorem read?_selfDelimiting :
    (∀ (before behind : Bytes) (values : List UInt32),
      readMany? (read? (before ++ (values.flatMap encode).toArray ++ behind)) values.length
          before.size =
        some (values, (before ++ (values.flatMap encode).toArray).size)) ∧
    ∀ (b : Bytes) (offset : Nat),
      (read? b offset = none ↔
        (b.toList.drop offset).length < 5 ∧ ∀ byte ∈ b.toList.drop offset, byte &&& 0x80 ≠ 0) ∧
      ∀ number next, read? b offset = some (number, next) →
        offset < next ∧ next ≤ min b.size (offset + 5) ∧
          ∀ (other : Bytes) (place : Nat),
            other.slice place (next - offset) = b.slice offset (next - offset) →
              read? other place = some (number, place + (next - offset)) := by
  refine ⟨fun before behind values => ?_, fun b offset => ⟨read?_eq_none_iff, ?_⟩⟩
  · rw [Array.size_append]
    exact readMany?_flatMap_encode (Bytes.holds_between before behind _)
  · intro number next h
    obtain ⟨later, inside⟩ := read?_bounds h
    exact ⟨later, Nat.le_min.mpr ⟨inside, next_le_of_read? h⟩, fun _ _ => read?_of_slice_eq h⟩

/-- A row between bytes that say that another follows, and two such bytes alone. Five of them are a
number, here and at another place. -/
theorem read?_selfDelimiting_unending :
    readMany?
          (read? (#[0xFF, 0xFF] ++ ([0, 300, 0xFFFFFFFF].flatMap encode).toArray ++ #[0x80])) 3 2 =
        some ([0, 300, 0xFFFFFFFF], 10) ∧
      read? #[0x80, 0x80] 0 = none ∧
      read? #[0xFF, 0xFF, 0xFF, 0xFF, 0xFF, 1] 0 = some (0xFFFFFFFF, 5) ∧
      Bytes.slice #[7, 0xFF, 0xFF, 0xFF, 0xFF, 0xFF] 1 5 =
        Bytes.slice #[0xFF, 0xFF, 0xFF, 0xFF, 0xFF, 1] 0 5 ∧
      read? #[7, 0xFF, 0xFF, 0xFF, 0xFF, 0xFF] 1 = some (0xFFFFFFFF, 6) := by
  obtain ⟨rows, reads⟩ := read?_selfDelimiting
  have row := rows #[0xFF, 0xFF] #[0x80] [0, 300, 0xFFFFFFFF]
  have size : (#[0xFF, 0xFF] ++ ([0, 300, 0xFFFFFFFF].flatMap encode).toArray).size = 10 := by cbv
  rw [size] at row
  have five : read? #[0xFF, 0xFF, 0xFF, 0xFF, 0xFF, 1] 0 = some (0xFFFFFFFF, 5) := by decide
  have same : Bytes.slice #[7, 0xFF, 0xFF, 0xFF, 0xFF, 0xFF] 1 5 =
      Bytes.slice #[0xFF, 0xFF, 0xFF, 0xFF, 0xFF, 1] 0 5 := by decide
  obtain ⟨_, _, elsewhere⟩ := (reads _ 0).2 _ _ five
  exact ⟨row, (reads #[0x80, 0x80] 0).1.mpr (by simp), five, same, elsewhere _ 1 same⟩

end Varint

end GoInspect
