import GoInspect.Proofs.TypeGraph.Reachable

/-!
# Headers near the top of the address space

Whether a header ends inside its section is checked with addresses, which wrap around. The header is
then read at offsets, which do not. The check is right about every header that ends below the top of
the address space, and it lets every other one pass.
-/

namespace GoInspect

namespace TypeSection

variable {s : TypeSection} {offset : UInt64}

/-- The bytes of a section are those between its bounds, of which there are some. -/
structure Spans (s : TypeSection) : Prop where
  width : s.pointerWidth = 4 ∨ s.pointerWidth = 8
  nonempty : s.low < s.high
  full : s.data.size = s.high.toNat - s.low.toNat

/-- The header at an offset ends inside the section. -/
def HeaderInside (s : TypeSection) (offset : UInt64) : Prop :=
  offset.toNat + (4 * s.pointerWidth.toNat + 16) ≤ s.data.size

/-- The address behind the header at an offset is no machine word. -/
def HeaderWraps (s : TypeSection) (offset : UInt64) : Prop :=
  2 ^ 64 ≤ s.low.toNat + offset.toNat + (4 * s.pointerWidth.toNat + 16)

instance (s : TypeSection) (offset : UInt64) : Decidable (s.HeaderWraps offset) :=
  inferInstanceAs (Decidable (_ ≤ _))

theorem runsPast_eq_false_iff (width : s.pointerWidth = 4 ∨ s.pointerWidth = 8) :
    s.runsPast offset = false ↔
      (s.low.toNat + offset.toNat + (4 * s.pointerWidth.toNat + 16)) % 2 ^ 64 ≤ s.high.toNat := by
  rw [runsPast, decide_eq_false_iff_not, UInt64.not_lt, UInt64.le_iff_toNat_le, UInt64.toNat_add,
    UInt64.toNat_add, headerWidth_toNat width, Nat.mod_add_mod]

/-- A header that does not wrap around passes the check if it is inside, and one that does
always. -/
theorem passes_iff (h : s.Spans) (asked : s.Asked offset) :
    s.runsPast offset = false ↔ s.HeaderInside offset ∨ s.HeaderWraps offset := by
  have narrow := pointerWidth_le h.width
  have low := s.low.toNat_lt
  have high := s.high.toNat_lt
  have nonempty := UInt64.lt_iff_toNat_lt.mp h.nonempty
  rw [runsPast_eq_false_iff h.width]
  unfold HeaderInside HeaderWraps
  rw [Asked] at asked
  rw [h.full] at asked ⊢
  by_cases wraps : 2 ^ 64 ≤ s.low.toNat + offset.toNat + (4 * s.pointerWidth.toNat + 16)
  · simp only [wraps, or_true, iff_true]
    -- The sum is taken off once, and what is left is below the start or near the bottom.
    rcases asked with word | inside <;> omega
  · simp only [wraps, or_false]
    rw [Nat.mod_eq_of_lt (Nat.not_le.mp wraps)]
    omega

theorem HeaderInside.not_wraps (h : s.Spans) (inside : s.HeaderInside offset) :
    ¬s.HeaderWraps offset := by
  have high := s.high.toNat_lt
  unfold HeaderInside at inside
  unfold HeaderWraps
  rw [h.full] at inside
  omega

section Reads

/-- A field of a header that lies inside the section can be read. -/
theorem HeaderInside.field_read (h : s.Spans) (inside : s.HeaderInside offset)
    {pointers bytes : UInt32} (few : pointers.toNat ≤ 4) (short : bytes.toNat ≤ 16) {width : Nat}
    (room : pointers.toNat * s.pointerWidth.toNat + bytes.toNat + width ≤
      4 * s.pointerWidth.toNat + 16) :
    ∃ value, s.read? (s.headerField offset pointers bytes) width = some value := by
  have high := s.high.toNat_lt
  have full := h.full
  unfold HeaderInside at inside
  refine ⟨_, Bytes.read?_eq_some_iff.mpr ⟨?_, rfl⟩⟩
  rw [headerField_toNat h.width few short (by omega)]
  omega

/-- All of a header that lies inside the section can be read. -/
theorem HeaderInside.rawHeader? (h : s.Spans) (inside : s.HeaderInside offset) :
    ∃ raw, s.rawHeader? offset = some raw := by
  have field {pointers bytes : UInt32} {width : Nat} (few : pointers.toNat ≤ 4)
      (short : bytes.toNat ≤ 16)
      (room : pointers.toNat * s.pointerWidth.toNat + bytes.toNat + width ≤
        4 * s.pointerWidth.toNat + 16) :=
    inside.field_read h few short room
  have start : s.headerField offset 0 0 = offset := by simp [headerField]
  obtain ⟨_, size⟩ : ∃ value, s.word? offset = some value :=
    start ▸ field (by decide) (by decide) (by simp; omega)
  obtain ⟨_, ptrBytes⟩ : ∃ value, s.word? (s.headerField offset 1 0) = some value :=
    field (by decide) (by decide) (by simp; omega)
  obtain ⟨_, hash⟩ : ∃ value, s.read? (s.headerField offset 2 0) 4 = some value :=
    field (by decide) (by decide) (by simp; omega)
  obtain ⟨_, tflag⟩ : ∃ value, s.read? (s.headerField offset 2 4) 1 = some value :=
    field (by decide) (by decide) (by simp; omega)
  obtain ⟨_, align⟩ : ∃ value, s.read? (s.headerField offset 2 5) 1 = some value :=
    field (by decide) (by decide) (by simp; omega)
  obtain ⟨_, fieldAlign⟩ : ∃ value, s.read? (s.headerField offset 2 6) 1 = some value :=
    field (by decide) (by decide) (by simp; omega)
  obtain ⟨_, kindByte⟩ : ∃ value, s.read? (s.headerField offset 2 7) 1 = some value :=
    field (by decide) (by decide) (by simp; omega)
  obtain ⟨_, nameOffset⟩ : ∃ value, s.read? (s.headerField offset 4 8) 4 = some value :=
    field (by decide) (by decide) (by simp)
  obtain ⟨_, ptrToThis⟩ : ∃ value, s.read? (s.headerField offset 4 12) 4 = some value :=
    field (by decide) (by decide) (by simp)
  simp only [TypeSection.rawHeader?, size, ptrBytes, hash, tflag, align, fieldAlign,
    kindByte, nameOffset, ptrToThis, Option.bind_eq_bind, Option.bind_some, Option.pure_def]
  exact ⟨_, rfl⟩

/-- A header misses some of its fields exactly if it does not lie inside the section. -/
theorem rawHeader?_eq_none_iff (h : s.Spans) (asked : s.Asked offset)
    (small : s.data.size + (4 * s.pointerWidth.toNat + 16) ≤ 2 ^ 64) :
    s.rawHeader? offset = none ↔ ¬s.HeaderInside offset := by
  constructor
  · intro missing inside
    obtain ⟨_, read⟩ := inside.rawHeader? h
    rw [missing] at read
    cases read
  · intro outside
    rw [Option.eq_none_iff_forall_ne_some]
    intro raw read
    exact outside (inside_of_rawHeader? ⟨h.width, h.full, small⟩ asked read)

end Reads

section Requests

/-- The offsets whose descriptors are decoded: those of links, which may be any number of 32 bits,
and those that a descriptor leads to. -/
inductive Requested (s : TypeSection) : UInt64 → Prop where
  | link {offset : UInt64} : offset.toNat < 2 ^ 32 → Requested s offset
  | lead {offset next : UInt64} {d : Descriptor} : Requested s offset → s.decode offset = .ok d →
      next ∈ s.successors d → Requested s next

/-- One descriptor leads to offsets of 32 bits and into the section only. -/
theorem asked_of_mem_successors (h : s.Spans) {d : Descriptor} (decoded : s.decode offset = .ok d)
    {next : UInt64} (mem : next ∈ s.successors d) : s.Asked next := by
  obtain mem | mem := List.mem_append.mp mem
  · obtain ⟨address, ref, rfl⟩ := List.mem_map.mp mem
    have inside := (List.mem_filter.mp ref).2
    simp only [contains, Bool.and_eq_true, decide_eq_true_eq] at inside
    exact asked_of_contains h.full inside.1 inside.2
  · obtain ⟨raw, _, header, _, _, _, _, place⟩ := content_of_decode decoded
    unfold Descriptor.pointerOffsets at mem
    split at mem
    · cases mem
    · rw [List.mem_singleton.mp mem, place]
      exact asked_of_read (ptrToThis_read header)

theorem Requested.asked (h : s.Spans) (requested : s.Requested offset) : s.Asked offset := by
  cases requested with
  | link word => exact .inl word
  | lead _ decoded mem => exact asked_of_mem_successors h decoded mem

end Requests

/-- The check is right about all offsets that may be asked for in sections that stay away from the
top of the address space: by the length of a header with their end, and by that and 2^32 with their
start. -/
theorem passes_inside_iff (h : s.Spans) :
    (∀ offset, s.Asked offset → s.runsPast offset = false → s.HeaderInside offset) ↔
      s.low.toNat + 2 ^ 32 + (4 * s.pointerWidth.toNat + 16) ≤ 2 ^ 64 ∧
        s.high.toNat + (4 * s.pointerWidth.toNat + 16) ≤ 2 ^ 64 := by
  have never (offset : UInt64) (asked : s.Asked offset)
      (right : s.runsPast offset = false → s.HeaderInside offset) : ¬s.HeaderWraps offset :=
    fun wraps => (right ((passes_iff h asked).mpr (.inr wraps))).not_wraps h wraps
  constructor
  · intro right
    have nonempty := UInt64.lt_iff_toNat_lt.mp h.nonempty
    constructor
    · -- The last offset of 32 bits.
      have asked : s.Asked 0xFFFFFFFF := .inl (by decide)
      have below := never _ asked (right _ asked)
      simp only [HeaderWraps, UInt64.reduceToNat] at below
      omega
    · -- The last byte of the section.
      have last : (s.high - 1 - s.low).toNat = s.high.toNat - 1 - s.low.toNat := by
        have one : (1 : UInt64) ≤ s.high := UInt64.le_iff_toNat_le.mpr (by simp; omega)
        have below : s.low ≤ s.high - 1 := by
          rw [UInt64.le_iff_toNat_le, UInt64.toNat_sub_of_le _ _ one]
          exact Nat.le_sub_one_of_lt nonempty
        rw [UInt64.toNat_sub_of_le _ _ below, UInt64.toNat_sub_of_le _ _ one]
        rfl
      have asked : s.Asked (s.high - 1 - s.low) := .inr (by rw [last, h.full]; omega)
      have below := never _ asked (right _ asked)
      simp only [HeaderWraps, last] at below
      omega
  · rintro ⟨low, high⟩ offset asked passes
    obtain inside | wraps := (passes_iff h asked).mp passes
    · exact inside
    · unfold HeaderWraps at wraps
      rw [Asked, h.full] at asked
      omega

/-- The check lets exactly those headers out of the section pass that wrap around, and these miss
some of their fields. All offsets that are requested are among those that it is asked about, and it
is right about all of these in a section that stays away from the top of the address space. -/
theorem passes_outside_iff (h : s.Spans) :
    (∀ offset, s.Requested offset → s.Asked offset) ∧
    (∀ offset, s.Asked offset → s.runsPast offset = false →
      (¬s.HeaderInside offset ↔ s.HeaderWraps offset) ∧
      (s.data.size + (4 * s.pointerWidth.toNat + 16) ≤ 2 ^ 64 →
        (s.rawHeader? offset = none ↔ s.HeaderWraps offset))) ∧
    ((∀ offset, s.Asked offset → s.runsPast offset = false → s.HeaderInside offset) ↔
      s.low.toNat + 2 ^ 32 + (4 * s.pointerWidth.toNat + 16) ≤ 2 ^ 64 ∧
        s.high.toNat + (4 * s.pointerWidth.toNat + 16) ≤ 2 ^ 64) := by
  refine ⟨fun offset requested => requested.asked h, fun offset asked passes => ?_,
    passes_inside_iff h⟩
  have outside : ¬s.HeaderInside offset ↔ s.HeaderWraps offset :=
    ⟨((passes_iff h asked).mp passes).resolve_left, fun wraps inside => inside.not_wraps h wraps⟩
  exact ⟨outside, fun small => (rawHeader?_eq_none_iff h asked small).trans outside⟩

/-- A section that begins 256 bytes below the top of the address space. -/
def topmost : TypeSection where
  low := 0xFFFFFFFFFFFFFF00
  high := 0xFFFFFFFFFFFFFF80
  data := Array.replicate 128 0
  version := ⟨16, 17⟩
  pointerWidth := 8

/-- The check passes a header that a link places where the addresses begin again. -/
theorem passes_outside_topmost :
    topmost.Spans ∧ topmost.Requested 0x100 ∧ topmost.runsPast 0x100 = false ∧
      ¬topmost.HeaderInside 0x100 ∧ topmost.rawHeader? 0x100 = none := by
  have spans : topmost.Spans := ⟨.inr rfl, by decide, by decide +kernel⟩
  have requested : topmost.Requested 0x100 := .link (by decide)
  have passes : topmost.runsPast 0x100 = false := by decide
  have wraps : topmost.HeaderWraps 0x100 := by decide
  obtain ⟨asked, strays, _⟩ := passes_outside_iff spans
  obtain ⟨outside, missing⟩ := strays _ (asked _ requested) passes
  exact ⟨spans, requested, passes, outside.mpr wraps, (missing (by decide +kernel)).mpr wraps⟩

end TypeSection

end GoInspect
