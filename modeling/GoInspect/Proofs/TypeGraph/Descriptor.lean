import GoInspect.Proofs.Bytes
import GoInspect.TypeGraph.Descriptor

/-!
# When a descriptor is accepted

`Accepted` says by itself, without the order of the checks, what makes the bytes at an offset a
descriptor. `decode_eq_ok_iff` shows that the decoder finds exactly these. Offsets that are asked
for come from 32-bit fields or from addresses inside the section, so that places in the header are
computed without a wrap-around.
-/

namespace GoInspect

/-- Positions in the list of kinds and numbers of kinds are the same thing. -/
theorem TypeKind.ofIndex?_eq_some_iff {n : Nat} {kind : TypeKind} :
    (Enumeration.ofIndex? (n : Int) : Option TypeKind) = some kind ↔ kind.index = n := by
  have position : (Enumeration.ofIndex? (n : Int) : Option TypeKind) =
      (Enumeration.all : List TypeKind)[n]? := by
    simp [Enumeration.ofIndex?]
  rw [position, TypeKind.index]
  constructor
  · intro h
    obtain ⟨inside, rfl⟩ := List.getElem?_eq_some_iff.mp h
    exact List.Nodup.idxOf_getElem (by decide) n inside
  · rintro rfl
    have inside : (Enumeration.all : List TypeKind).idxOf kind <
        (Enumeration.all : List TypeKind).length := by
      cases kind <;> decide
    rw [List.getElem?_eq_getElem inside, List.getElem_idxOf]

namespace TypeSection

variable {s : TypeSection} {offset : UInt64} {d : Descriptor}

/-- A section whose bytes are all there, with pointers of one of the two widths. It is small enough
that no header which begins inside it wraps around. -/
structure Complete (s : TypeSection) : Prop where
  width : s.pointerWidth = 4 ∨ s.pointerWidth = 8
  full : s.data.size = s.high.toNat - s.low.toNat
  small : s.data.size + (4 * s.pointerWidth.toNat + 16) ≤ 2 ^ 64

/-- An offset as type links, references and the places of pointer types give it. -/
def Asked (s : TypeSection) (offset : UInt64) : Prop :=
  offset.toNat < 2 ^ 32 ∨ offset.toNat < s.data.size

/-- A descriptor stands at an offset: its header lies inside the section, its name can be read, its
kind has one of the known numbers, and the data of the kind is well-formed. -/
structure Accepted (s : TypeSection) (offset : UInt64) (d : Descriptor) : Prop where
  inside : offset.toNat + (4 * s.pointerWidth.toNat + 16) ≤ s.data.size
  content : ∃ (raw : RawHeader) (kind : TypeKind), s.rawHeader? offset = some raw ∧
    s.typeName? (raw.nameOffset + 1) raw.tflag = some d.header.name ∧
    kind.index = raw.kindNumber ∧
    s.shape? kind raw.tflag (offset + s.headerWidth) = some d.shape ∧
    d.header = raw.named d.header.name ∧ d.ptrToThis = raw.ptrToThis

theorem headerWidth_toNat (width : s.pointerWidth = 4 ∨ s.pointerWidth = 8) :
    s.headerWidth.toNat = 4 * s.pointerWidth.toNat + 16 := by
  rw [headerWidth]
  rcases width with width | width <;> rw [width] <;> rfl

theorem pointerWidth_le (width : s.pointerWidth = 4 ∨ s.pointerWidth = 8) :
    s.pointerWidth.toNat ≤ 8 := by
  rcases width with width | width <;> rw [width] <;> decide

/-- How far behind its start a header holds a field. -/
theorem fieldDistance_toNat (width : s.pointerWidth = 4 ∨ s.pointerWidth = 8)
    {pointers bytes : UInt32} (few : pointers.toNat ≤ 4) (short : bytes.toNat ≤ 16) :
    (pointers * s.pointerWidth + bytes).toUInt64.toNat =
      pointers.toNat * s.pointerWidth.toNat + bytes.toNat := by
  have bound := Nat.mul_le_mul few (pointerWidth_le width)
  rw [UInt32.toNat_toUInt64, UInt32.toNat_add, UInt32.toNat_mul]
  omega

theorem headerField_toNat (width : s.pointerWidth = 4 ∨ s.pointerWidth = 8)
    {pointers bytes : UInt32} (few : pointers.toNat ≤ 4) (short : bytes.toNat ≤ 16)
    (unwrapped : offset.toNat + (pointers.toNat * s.pointerWidth.toNat + bytes.toNat) < 2 ^ 64) :
    (s.headerField offset pointers bytes).toNat =
      offset.toNat + (pointers.toNat * s.pointerWidth.toNat + bytes.toNat) := by
  rw [headerField, UInt64.toNat_add, fieldDistance_toNat width few short]
  exact Nat.mod_eq_of_lt unwrapped

/-- The last field of a header, so that a header that was read lies inside the section. -/
theorem ptrToThis_read {raw : RawHeader} (h : s.rawHeader? offset = some raw) :
    s.read? (s.headerField offset 4 12) 4 = some raw.ptrToThis := by
  rw [rawHeader?] at h
  simp only [Option.bind_eq_bind, Option.pure_def, Option.bind_eq_some_iff, Option.some.injEq]
    at h
  obtain ⟨_, _, _, _, _, _, _, _, _, _, _, _, _, _, _, _, place, read, rfl⟩ := h
  exact read

theorem inside_of_rawHeader? (c : s.Complete) (asked : s.Asked offset) {raw : RawHeader}
    (h : s.rawHeader? offset = some raw) :
    offset.toNat + (4 * s.pointerWidth.toNat + 16) ≤ s.data.size := by
  have bound := (Bytes.read?_eq_some_iff.mp (ptrToThis_read h)).1
  have narrow := pointerWidth_le c.width
  have unwrapped : offset.toNat + (4 * s.pointerWidth.toNat + 12) < 2 ^ 64 := by
    have := c.small
    rcases asked with word | inside <;> omega
  have place : (s.headerField offset 4 12).toNat =
      offset.toNat + (4 * s.pointerWidth.toNat + 12) :=
    headerField_toNat c.width (by decide) (by decide) unwrapped
  rw [place] at bound
  omega

/-- A header inside the section passes the check of its end. -/
theorem runsPast_eq_false (width : s.pointerWidth = 4 ∨ s.pointerWidth = 8)
    (full : s.data.size = s.high.toNat - s.low.toNat)
    (inside : offset.toNat + (4 * s.pointerWidth.toNat + 16) ≤ s.data.size) :
    s.runsPast offset = false := by
  have high := s.high.toNat_lt
  have sum : (s.low + offset + s.headerWidth).toNat =
      s.low.toNat + offset.toNat + s.headerWidth.toNat := by
    rw [UInt64.toNat_add, UInt64.toNat_add, headerWidth_toNat width]
    omega
  rw [runsPast, decide_eq_false_iff_not, UInt64.lt_iff_toNat_lt, sum, headerWidth_toNat width]
  omega

/-- What is decoded has passed all checks. -/
theorem content_of_decode (h : s.decode offset = .ok d) :
    ∃ (raw : RawHeader) (kind : TypeKind), s.rawHeader? offset = some raw ∧
      s.typeName? (raw.nameOffset + 1) raw.tflag = some d.header.name ∧
      kind.index = raw.kindNumber ∧
      s.shape? kind raw.tflag (offset + s.headerWidth) = some d.shape ∧
      d.header = raw.named d.header.name ∧ d.ptrToThis = raw.ptrToThis := by
  unfold decode at h
  simp only at h
  split at h
  · cases h
  · split at h
    · cases h
    · next raw header =>
      split at h
      · cases h
      · next name named =>
        split at h
        · cases h
        · next kind known =>
          split at h
          · cases h
          · next shape formed =>
            cases h
            exact ⟨raw, kind, header, named, TypeKind.ofIndex?_eq_some_iff.mp known, formed, rfl,
              rfl⟩

/-- The decoder accepts exactly the descriptors. -/
theorem decode_eq_ok_iff (c : s.Complete) (asked : s.Asked offset) :
    s.decode offset = .ok d ↔ s.Accepted offset d := by
  constructor
  · intro h
    obtain ⟨raw, kind, header, content⟩ := content_of_decode h
    exact ⟨inside_of_rawHeader? c asked header, raw, kind, header, content⟩
  · rintro ⟨inside, raw, kind, header, named, known, formed, fields, pointer⟩
    have found := TypeKind.ofIndex?_eq_some_iff.mpr known
    rw [decode]
    simp only [runsPast_eq_false c.width c.full inside, header, named, found, formed,
      Bool.false_eq_true, if_false]
    rw [← fields, ← pointer]

end TypeSection

end GoInspect
