import GoInspect.FunctionTable.Locate
import GoInspect.Proofs.Bytes

/-!
# The places where a function table is looked for

A locator hands out one candidate a call and keeps what is left to try. Here all candidates of an
image are listed at once: the sections that are named for a table, and, where the read-only data is
searched, every whole number of pointers at which the start of a table stands, one magic number
after the other. Each call takes the first of what is left, so that call after call the list comes
out, and then nothing more.
-/

namespace GoInspect

namespace FunctionTable

/-- The start of a table stands at an offset: the magic number, two zero bytes, the size of an
instruction and the width of a pointer. -/
def StartsTable (data : Bytes) (magic pointerWidth : UInt32) (offset : Nat) : Prop :=
  pointerWidth.toNat < 256 ∧ ∃ size ∈ ([1, 2, 4] : List UInt8),
    data.Holds offset (littleEndianBytes 4 magic.toNat ++ [0, 0, size, pointerWidth.toUInt8])

instance (data : Bytes) (magic pointerWidth : UInt32) (offset : Nat) :
    Decidable (StartsTable data magic pointerWidth offset) :=
  inferInstanceAs (Decidable (_ ∧ ∃ size ∈ _, _))

section Start

variable {data : Bytes} {magic pointerWidth : UInt32} {offset : Nat}

theorem StartsTable.le_size (h : StartsTable data magic pointerWidth offset) :
    offset + 8 ≤ data.size := by
  obtain ⟨_, _, _, holds⟩ := h
  simpa using holds.le_size (by simp)

/-- Eight bytes that are there, one by one. -/
theorem exists_eight {l : List UInt8} (enough : 8 ≤ l.length) :
    ∃ a b c d e f g h rest, l = a :: b :: c :: d :: e :: f :: g :: h :: rest := by
  match l, enough with
  | a :: b :: c :: d :: e :: f :: g :: h :: rest, _ => exact ⟨a, b, c, d, e, f, g, h, rest, rfl⟩

theorem toWord_eq_iff {b : Bytes} {width n : Nat} (wide : b.size = width) (fits : n < 256 ^ width)
    (few : width ≤ 8) : b.toWord = UInt64.ofNat n ↔ b.toList = littleEndianBytes width n := by
  have power : 256 ^ width ≤ 2 ^ 64 := Nat.pow_le_pow_right (by decide : 0 < 256) few
  rw [← littleEndian_eq_iff (by rw [Array.length_toList, wide]) fits, ← UInt64.toNat_inj,
    Bytes.toNat_toWord (wide ▸ few), UInt64.toNat_ofNat',
    Nat.mod_eq_of_lt (Nat.lt_of_lt_of_le fits power)]

theorem isInstructionSize_iff (size : UInt8) :
    isInstructionSize size.toUInt64 = true ↔ size ∈ ([1, 2, 4] : List UInt8) := by
  simp only [isInstructionSize, Bool.or_eq_true, beq_iff_eq, List.mem_cons, List.not_mem_nil,
    or_false, ← UInt64.toNat_inj, ← UInt8.toNat_inj, or_assoc]
  rfl

theorem toUInt32_eq_iff {byte : UInt8} {width : UInt32} :
    byte.toUInt32 = width ↔ width.toNat < 256 ∧ byte = width.toUInt8 := by
  have small := byte.toNat_lt
  rw [← UInt32.toNat_inj, ← UInt8.toNat_inj]
  show byte.toNat = width.toNat ↔ _ ∧ byte.toNat = width.toNat % 2 ^ 8
  omega

/-- The test for the start of a table looks at eight bytes. -/
theorem startsTable_iff (inside : offset + 8 ≤ data.size) :
    startsTable data magic pointerWidth offset = true ↔
      StartsTable data magic pointerWidth offset := by
  obtain ⟨a, b, c, d, e, f, g, h, rest, window⟩ := exists_eight (l := data.toList.drop offset)
    (by rw [List.length_drop, Array.length_toList]; omega)
  have byte (i : Nat) : data.getD (offset + i) 0 = ((data.toList.drop offset)[i]?).getD 0 := by
    rw [List.getElem?_drop, Array.getElem?_toList, Array.getD_eq_getD_getElem?]
  have sixth : data.getD (offset + 6) 0 = g := by
    rw [byte, window]
    rfl
  have seventh : data.getD (offset + 7) 0 = h := by
    rw [byte, window]
    rfl
  have first : (data.slice offset 4).toList = [a, b, c, d] := by
    rw [Bytes.toList_slice, window]
    rfl
  have pad : (data.slice (offset + 4) 2).toList = [e, f] := by
    rw [Bytes.toList_slice, ← List.drop_drop, window]
    rfl
  have magicIff : (data.slice offset 4).toWord = magic.toUInt64 ↔
      littleEndianBytes 4 magic.toNat = [a, b, c, d] := by
    have wide : (data.slice offset 4).size = 4 := by rw [← Array.length_toList, first]; rfl
    have number : magic.toUInt64 = UInt64.ofNat magic.toNat := UInt64.toNat_inj.mp (by simp)
    rw [number, toWord_eq_iff wide magic.toNat_lt (by decide), first, eq_comm]
  have padIff : (data.slice (offset + 4) 2).toWord = 0 ↔ [0, 0] = [e, f] := by
    have wide : (data.slice (offset + 4) 2).size = 2 := by rw [← Array.length_toList, pad]; rfl
    have zero : (0 : UInt64) = UInt64.ofNat 0 := rfl
    rw [zero, toWord_eq_iff wide (by decide) (by decide), pad, eq_comm]
    rfl
  have holdsIff (size : UInt8) :
      data.Holds offset (littleEndianBytes 4 magic.toNat ++ [0, 0, size, pointerWidth.toUInt8]) ↔
        littleEndianBytes 4 magic.toNat = [a, b, c, d] ∧
          [0, 0, size, pointerWidth.toUInt8] = [e, f, g, h] := by
    rw [Bytes.Holds, List.prefix_iff_eq_take, List.length_append, length_littleEndianBytes, window]
    have wide : (littleEndianBytes 4 magic.toNat).length = [a, b, c, d].length :=
      length_littleEndianBytes 4 magic.toNat
    exact List.append_eq_append_iff_of_size_eq_left wide
  rw [startsTable, sixth, seventh]
  simp only [Bool.and_eq_true, beq_iff_eq, magicIff, padIff, isInstructionSize_iff,
    toUInt32_eq_iff, StartsTable, holdsIff, List.cons.injEq]
  constructor
  · rintro ⟨⟨⟨named, zero, zero', -⟩, size⟩, small, width⟩
    exact ⟨small, g, size, named, zero, zero', rfl, width.symm, trivial⟩
  · rintro ⟨small, size, mem, named, zero, zero', rfl, width, -⟩
    exact ⟨⟨⟨named, zero, zero', trivial⟩, mem⟩, small, width.symm⟩

end Start

/-- The whole numbers of pointers, counted from one on, at which the start of a table stands. -/
def tableOffsets (data : Bytes) (magic pointerWidth : UInt32) (first : Nat) : List Nat :=
  ((List.range' first (data.size / pointerWidth.toNat + 1 - first)).map
    (· * pointerWidth.toNat)).filter fun offset => StartsTable data magic pointerWidth offset

section Scan

variable {data : Bytes} {magic pointerWidth : UInt32} {first : Nat}

/-- The first of the places that are left is one of the offsets where a start of a table stands. -/
theorem tableOffsets_inside (positive : 0 < pointerWidth.toNat)
    (inside : first * pointerWidth.toNat + 8 ≤ data.size) :
    tableOffsets data magic pointerWidth first =
      if StartsTable data magic pointerWidth (first * pointerWidth.toNat) then
        first * pointerWidth.toNat :: tableOffsets data magic pointerWidth (first + 1)
      else tableOffsets data magic pointerWidth (first + 1) := by
  have below : first ≤ data.size / pointerWidth.toNat :=
    (Nat.le_div_iff_mul_le positive).mpr (by omega)
  have count : data.size / pointerWidth.toNat + 1 - first =
      data.size / pointerWidth.toNat + 1 - (first + 1) + 1 := by omega
  rw [tableOffsets, count, List.range'_succ, List.map_cons, List.filter_cons]
  simp only [decide_eq_true_iff]
  rfl

/-- No start of a table stands at the end. -/
theorem tableOffsets_outside (outside : data.size < first * pointerWidth.toNat + 8) :
    tableOffsets data magic pointerWidth first = [] := by
  rw [tableOffsets, List.filter_eq_nil_iff]
  intro offset mem starts
  obtain ⟨j, later, rfl⟩ := List.mem_map.mp mem
  have behind : first * pointerWidth.toNat ≤ j * pointerWidth.toNat :=
    Nat.mul_le_mul_right _ (List.mem_range'_1.mp later).1
  have inside := (of_decide_eq_true starts).le_size
  omega

/-- The offsets are the whole numbers of pointers at which the start of a table stands. -/
theorem mem_tableOffsets {offset : Nat} : offset ∈ tableOffsets data magic pointerWidth 0 ↔
    pointerWidth.toNat ∣ offset ∧ StartsTable data magic pointerWidth offset := by
  rw [tableOffsets, List.mem_filter, decide_eq_true_iff]
  refine and_congr_left fun starts => ?_
  rw [List.mem_map]
  constructor
  · rintro ⟨j, _, rfl⟩
    exact Nat.dvd_mul_left ..
  · rintro ⟨j, rfl⟩
    obtain unknown | positive := Nat.eq_zero_or_pos pointerWidth.toNat
    · exact ⟨0, by simp, by rw [unknown, Nat.zero_mul, Nat.zero_mul]⟩
    · have inside := starts.le_size
      have below : j ≤ data.size / pointerWidth.toNat := by
        rw [Nat.le_div_iff_mul_le positive, Nat.mul_comm]
        omega
      refine ⟨j, ?_, Nat.mul_comm ..⟩
      rw [List.mem_range'_1]
      omega

/-- They come in increasing order, each once. -/
theorem pairwise_tableOffsets (data : Bytes) (magic pointerWidth : UInt32) :
    (tableOffsets data magic pointerWidth 0).Pairwise (· < ·) := by
  refine List.Pairwise.filter _ ?_
  obtain unknown | positive := Nat.eq_zero_or_pos pointerWidth.toNat
  · rw [unknown, Nat.div_zero]
    exact List.pairwise_singleton _ _
  · rw [List.pairwise_map]
    exact (List.pairwise_lt_range' 1).imp fun less => Nat.mul_lt_mul_of_pos_right less positive

variable (data magic) in
/-- Searching finds the first of the offsets that are left. -/
theorem scanFor?_parts (positive : 0 < pointerWidth.toNat) (first : Nat) :
    scanFor? data magic pointerWidth (first * pointerWidth.toNat) = none ∧
        tableOffsets data magic pointerWidth first = [] ∨
      ∃ found, scanFor? data magic pointerWidth (first * pointerWidth.toNat) =
          some (found * pointerWidth.toNat) ∧
        tableOffsets data magic pointerWidth first =
          found * pointerWidth.toNat :: tableOffsets data magic pointerWidth (found + 1) := by
  generalize place : first * pointerWidth.toNat = offset
  fun_induction scanFor? data magic pointerWidth offset generalizing first with
  | case1 offset room starts =>
      subst place
      rw [startsTable_iff room.1] at starts
      exact .inr ⟨first, rfl, by rw [tableOffsets_inside positive room.1, if_pos starts]⟩
  | case2 offset room fails ih =>
      subst place
      rw [startsTable_iff room.1] at fails
      rw [tableOffsets_inside positive room.1, if_neg fails]
      exact ih (first + 1) (Nat.succ_mul ..)
  | case3 offset none =>
      subst place
      exact .inl ⟨rfl, tableOffsets_outside (by omega)⟩

end Scan

section Candidates

variable (image : Image) (m : Memory) (pointerWidth : UInt32)

/-- The section of a name, if it is there and not empty. -/
def namedCandidate? (name : Text) : Option Candidate :=
  ((image.section? name).filter fun s => s.data.size ≠ 0).map fun s =>
    ⟨s.data, s.address, m.toRuntime s.address⟩

/-- The sections of some names that are there and not empty. -/
def namedCandidates (names : List Text) : List Candidate :=
  names.filterMap (namedCandidate? image m)

/-- What stands in a section from an offset on. -/
def candidateAt (s : Section) (offset : Nat) : Candidate :=
  let address := s.address + UInt64.ofNat offset
  ⟨s.data.extract offset, address, m.toRuntime address⟩

/-- The places in a section where the start of a table of a magic number stands. -/
def scannedCandidates (s : Section) (magic : UInt32) : List Candidate :=
  (tableOffsets s.data magic pointerWidth 0).map (candidateAt m s)

/-- The sections that are named for a table. -/
def tableSections : List Candidate :=
  namedCandidates image m [utf8 ".gopclntab", utf8 "__gopclntab"]

/-- The places in the read-only data, those of the magic number of 1.2 first, and then those of
1.16, of 1.18 and of 1.20. It is searched in a portable executable only, where the user insists and
the width of a pointer is known. -/
def searchedCandidates (level : SupportLevel) : List Candidate :=
  if image.format = .portableExecutable ∧ level = .force ∧ pointerWidth ≠ 0 then
    (image.section? (utf8 ".rdata")).elim [] fun s =>
      ([0xFFFFFFFB, 0xFFFFFFFA, 0xFFFFFFF0, 0xFFFFFFF1] : List UInt32).flatMap
        (scannedCandidates m pointerWidth s)
  else []

/-- All places where a table is looked for. -/
def candidates (level : SupportLevel) : List Candidate :=
  tableSections image m ++ searchedCandidates image m pointerWidth level

/-- The places that are left in a section, counted from a whole number of pointers on for the first
magic number and from the start for the others. -/
def leftCandidates (s : Section) : List UInt32 → Nat → List Candidate
  | [], _ => []
  | magic :: rest, first =>
    (tableOffsets s.data magic pointerWidth first).map (candidateAt m s) ++
      rest.flatMap (scannedCandidates m pointerWidth s)

theorem leftCandidates_zero (s : Section) (magics : List UInt32) :
    leftCandidates m pointerWidth s magics 0 =
      magics.flatMap (scannedCandidates m pointerWidth s) := by
  cases magics <;> rfl

/-- What a locator leaves to be tried. -/
inductive Locator.Leaves : Locator → SupportLevel → List Candidate → Prop where
  | sections (names : List Text) (level : SupportLevel) :
      Leaves (.sections names) level
        (namedCandidates image m names ++ searchedCandidates image m pointerWidth level)
  | scan (s : Section) (magics : List UInt32) (first : Nat) (level : SupportLevel) :
      0 < pointerWidth.toNat → Leaves (.scan s magics (first * pointerWidth.toNat)) level
        (leftCandidates m pointerWidth s magics first)
  | finished (level : SupportLevel) : Leaves .finished level []

/-- The answer to the call after `n` others, and the level of support after it. -/
def Locator.call : (n : Nat) → Locator → SupportLevel → Option Candidate × SupportLevel
  | 0, l, level =>
    let (candidate, _, level) := (l.next image m pointerWidth level).value
    (candidate, level)
  | n + 1, l, level =>
    let (_, l, level) := (l.next image m pointerWidth level).value
    call n l level

end Candidates

section Calls

theorem magics_eq :
    generations.map Generation.magic = [0xFFFFFFFB, 0xFFFFFFFA, 0xFFFFFFF0, 0xFFFFFFF1] := rfl

variable {image : Image} {m : Memory} {pointerWidth : UInt32} {level : SupportLevel}

/-- The next section is the first of those that are left. -/
theorem nextSection?_parts (names : List Text) :
    nextSection? image names = none ∧ namedCandidates image m names = [] ∨
      ∃ s rest, nextSection? image names = some (s, rest) ∧
        namedCandidates image m names =
          ⟨s.data, s.address, m.toRuntime s.address⟩ :: namedCandidates image m rest := by
  induction names with
  | nil => exact .inl ⟨rfl, rfl⟩
  | cons name rest ih =>
      rw [nextSection?, namedCandidates]
      cases there : image.section? name with
      | none =>
          have absent : namedCandidate? image m name = none := by rw [namedCandidate?, there]; rfl
          rw [List.filterMap_cons_none absent]
          exact ih
      | some s =>
          by_cases empty : s.data = #[]
          · have absent : namedCandidate? image m name = none := by
              simp [namedCandidate?, there, empty]
            have skipped : s.data.isEmpty = true := Array.isEmpty_iff.mpr empty
            rw [List.filterMap_cons_none absent]
            simp only [skipped, if_true]
            exact ih
          · have present : namedCandidate? image m name =
                some ⟨s.data, s.address, m.toRuntime s.address⟩ := by
              simp [namedCandidate?, there, empty]
            have taken : s.data.isEmpty = false := by simpa using empty
            rw [List.filterMap_cons_some present]
            simp only [taken]
            exact .inr ⟨s, rest, rfl, rfl⟩

variable (image m level) in
/-- Searching on takes the first of the places that are left in a section. -/
theorem scanNext_leaves (positive : 0 < pointerWidth.toNat) (s : Section) (magics : List UInt32)
    (first : Nat) :
    (scanNext s m pointerWidth magics (first * pointerWidth.toNat)).1 =
        (leftCandidates m pointerWidth s magics first).head? ∧
      Locator.Leaves image m pointerWidth
        (scanNext s m pointerWidth magics (first * pointerWidth.toNat)).2 level
        (leftCandidates m pointerWidth s magics first).tail := by
  induction magics generalizing first with
  | nil => exact ⟨rfl, .finished level⟩
  | cons magic rest ih =>
      rw [scanNext, leftCandidates]
      obtain ⟨none, empty⟩ | ⟨found, here, others⟩ :=
        scanFor?_parts s.data magic positive first
      · rw [none, empty, List.map_nil, List.nil_append, ← leftCandidates_zero]
        simpa using ih 0
      · rw [here, others]
        refine ⟨rfl, ?_⟩
        have next : Locator.Leaves image m pointerWidth _ level _ :=
          .scan s (magic :: rest) (found + 1) level positive
        rwa [Nat.succ_mul] at next

/-- Nothing is found where the width of a pointer is not known. -/
theorem scanNext_zero (s : Section) (magics : List UInt32) (offset : Nat) :
    scanNext s m 0 magics offset = (none, .finished) := by
  induction magics generalizing offset with
  | nil => rfl
  | cons magic rest ih =>
      have nothing : scanFor? s.data magic 0 offset = none := by
        rw [scanFor?, dif_neg (by simp)]
      rw [scanNext, nothing]
      exact ih 0

/-- A section that is named for a table is handed out. -/
theorem Locator.next_named {names rest : List Text} {s : Section}
    (found : nextSection? image names = some (s, rest)) :
    (Locator.next image m pointerWidth level (.sections names)).value =
      (some ⟨s.data, s.address, m.toRuntime s.address⟩, .sections rest, level) := by
  simp only [Locator.next, found, Logged.value_pure]

/-- After these sections the read-only data is not searched, unless the user insists. Only the level
`auto` changes. -/
theorem Locator.next_unsearched {names : List Text} (none : nextSection? image names = none)
    (unsearched : ¬ (image.format = .portableExecutable ∧ level = .force)) :
    (Locator.next image m pointerWidth level (.sections names)).value =
      (.none, .finished,
        if image.format = .portableExecutable ∧ level = .auto then .disable else level) := by
  simp only [Locator.next, none]
  by_cases executable : image.format = .portableExecutable
  · cases level with
    | force => exact absurd ⟨executable, rfl⟩ unsearched
    | auto | disable => simp [executable]
  · simp [executable]

/-- Where the user insists it is searched. -/
theorem Locator.next_searched {names : List Text} (none : nextSection? image names = none)
    (executable : image.format = .portableExecutable) :
    (Locator.next image m pointerWidth .force (.sections names)).value =
      match image.section? scannedSection with
      | .none => (.none, .finished, .force)
      | some s =>
        ((scanNext s m pointerWidth (generations.map Generation.magic) 0).1,
          (scanNext s m pointerWidth (generations.map Generation.magic) 0).2, .force) := by
  rw [Locator.next, none, executable]
  cases image.section? scannedSection <;> rfl

/-- The first call after the named sections takes the first place in the read-only data. -/
theorem Locator.next_past_leaves {names : List Text} (none : nextSection? image names = none) :
    (Locator.next image m pointerWidth level (.sections names)).value.1 =
        (searchedCandidates image m pointerWidth level).head? ∧
      Locator.Leaves image m pointerWidth
        (Locator.next image m pointerWidth level (.sections names)).value.2.1
        (Locator.next image m pointerWidth level (.sections names)).value.2.2
        (searchedCandidates image m pointerWidth level).tail := by
  by_cases searched : image.format = .portableExecutable ∧ level = .force
  · obtain ⟨executable, rfl⟩ := searched
    rw [Locator.next_searched none executable, searchedCandidates, scannedSection, magics_eq]
    cases image.section? (utf8 ".rdata") with
    | none =>
        rw [Option.elim_none, ite_self]
        exact ⟨rfl, .finished _⟩
    | some s =>
        by_cases unknown : pointerWidth = 0
        · subst unknown
          rw [if_neg (by simp)]
          simp only [scanNext_zero]
          exact ⟨rfl, .finished _⟩
        · have positive : 0 < pointerWidth.toNat :=
            Nat.pos_of_ne_zero fun zero => unknown (UInt32.toNat_inj.mp zero)
          have scanned := scanNext_leaves image m .force positive s
            [0xFFFFFFFB, 0xFFFFFFFA, 0xFFFFFFF0, 0xFFFFFFF1] 0
          rw [Nat.zero_mul, leftCandidates_zero] at scanned
          rw [if_pos ⟨executable, rfl, unknown⟩]
          exact scanned
  · have nothing : searchedCandidates image m pointerWidth level = [] :=
      if_neg fun h => searched ⟨h.1, h.2.1⟩
    rw [Locator.next_unsearched none searched, nothing]
    exact ⟨rfl, .finished _⟩

/-- A call takes the first of what is left. -/
theorem Locator.Leaves.next {l : Locator} {left : List Candidate}
    (h : Leaves image m pointerWidth l level left) :
    (l.next image m pointerWidth level).value.1 = left.head? ∧
      Leaves image m pointerWidth (l.next image m pointerWidth level).value.2.1
        (l.next image m pointerWidth level).value.2.2 left.tail := by
  cases h with
  | finished => exact ⟨rfl, .finished level⟩
  | scan s magics first _ positive => exact scanNext_leaves image m level positive s magics first
  | sections names =>
      obtain ⟨none, empty⟩ | ⟨s, rest, found, others⟩ := nextSection?_parts (m := m) names
      · rw [empty, List.nil_append]
        exact Locator.next_past_leaves none
      · rw [Locator.next_named found, others]
        exact ⟨rfl, .sections rest level⟩

/-- Call after call the places come out that were left, and then nothing. -/
theorem Locator.Leaves.call {l : Locator} {left : List Candidate}
    (h : Leaves image m pointerWidth l level left) (n : Nat) :
    (Locator.call image m pointerWidth n l level).1 = left[n]? := by
  induction n generalizing l level left with
  | zero => rw [← List.head?_eq_getElem?, Locator.call, h.next.1]
  | succ n ih => rw [← List.getElem?_tail, Locator.call, ih h.next.2]

end Calls

section Level

variable {image : Image} {m : Memory} {pointerWidth : UInt32} {level : SupportLevel}

theorem scanNext_ne_sections (s : Section) (magics : List UInt32) (offset : Nat)
    (names : List Text) : (scanNext s m pointerWidth magics offset).2 ≠ .sections names := by
  induction magics generalizing offset with
  | nil => nofun
  | cons magic rest ih =>
      rw [scanNext]
      split
      · nofun
      · exact ih 0

/-- Behind the named sections the level of support stays. -/
theorem Locator.call_level_past {l : Locator} (past : ∀ names, l ≠ .sections names) (n : Nat) :
    (Locator.call image m pointerWidth n l level).2 = level := by
  induction n generalizing l with
  | zero =>
      cases l with
      | sections names => exact absurd rfl (past names)
      | scan | finished => rfl
  | succ n ih =>
      cases l with
      | sections names => exact absurd rfl (past names)
      | scan s magics offset => exact ih (scanNext_ne_sections s magics offset)
      | finished => exact ih nofun

variable (m pointerWidth level) in
/-- The call that finds no named section any more may give up support. -/
theorem Locator.next_past_level {names : List Text} (none : nextSection? image names = none) :
    (Locator.next image m pointerWidth level (.sections names)).value.2.2 =
        (if image.format = .portableExecutable ∧ level = .auto then .disable else level) ∧
      ∀ more, (Locator.next image m pointerWidth level (.sections names)).value.2.1 ≠
        .sections more := by
  by_cases searched : image.format = .portableExecutable ∧ level = .force
  · obtain ⟨executable, rfl⟩ := searched
    rw [Locator.next_searched none executable, if_neg (by simp)]
    cases image.section? scannedSection with
    | none => exact ⟨rfl, nofun⟩
    | some s => exact ⟨rfl, scanNext_ne_sections s _ 0⟩
  · rw [Locator.next_unsearched none searched]
    exact ⟨rfl, nofun⟩

/-- Support is given up by the first call after the named sections, if at all. -/
theorem Locator.call_level (names : List Text) (n : Nat) :
    (Locator.call image m pointerWidth n (.sections names) level).2 =
      if image.format = .portableExecutable ∧ level = .auto ∧
        (namedCandidates image m names).length ≤ n then .disable else level := by
  induction n generalizing names with
  | zero =>
      rw [Locator.call]
      obtain ⟨none, empty⟩ | ⟨s, rest, found, others⟩ := nextSection?_parts (m := m) names
      · rw [(Locator.next_past_level m pointerWidth level none).1, empty]
        simp
      · rw [Locator.next_named found, others]
        simp
  | succ n ih =>
      rw [Locator.call]
      obtain ⟨none, empty⟩ | ⟨s, rest, found, others⟩ := nextSection?_parts (m := m) names
      · obtain ⟨given, past⟩ := Locator.next_past_level m pointerWidth level none
        rw [Locator.call_level_past past, given, empty]
        simp
      · rw [Locator.next_named found, ih, others]
        simp

end Level

/-- The calls of a locator enumerate the candidates of an image one by one, and answer with nothing
once these are used up. The candidates are the named sections that are not empty, in order, and, for
a portable executable where the user insists and the width of a pointer is known, what the read-only
data holds from each whole number of pointers on at which the start of a table stands: for one magic
number after the other, oldest first, and for each in increasing order. The level of support is
given up by the first call after the named sections, of a portable executable where the user left it
open, and changes in no other call. -/
theorem Locator.call_start (image : Image) (m : Memory) (pointerWidth : UInt32)
    (level : SupportLevel) :
    (∀ n, Locator.call image m pointerWidth n .start level =
      ((candidates image m pointerWidth level)[n]?,
        if image.format = .portableExecutable ∧ level = .auto ∧
          (tableSections image m).length ≤ n then .disable else level)) ∧
    ∀ data magic, (tableOffsets data magic pointerWidth 0).Pairwise (· < ·) ∧
      ∀ offset, offset ∈ tableOffsets data magic pointerWidth 0 ↔
        pointerWidth.toNat ∣ offset ∧ StartsTable data magic pointerWidth offset := by
  constructor
  · intro n
    have leaves : Locator.Leaves image m pointerWidth .start level _ :=
      .sections [utf8 ".gopclntab", utf8 "__gopclntab"] level
    exact Prod.ext (leaves.call n) (Locator.call_level _ n)
  · intro data magic
    exact ⟨pairwise_tableOffsets data magic pointerWidth, fun _ => mem_tableOffsets⟩

/-- Starts of tables of 1.16 and, behind it, two of 1.2, and one of 1.20 for wider pointers. -/
def sampleRdata : Bytes :=
  #[0xFA, 0xFF, 0xFF, 0xFF, 0, 0, 1, 4, 0xFB, 0xFF, 0xFF, 0xFF, 0, 0, 4, 4,
    0xFB, 0xFF, 0xFF, 0xFF, 0, 0, 2, 4, 0xF1, 0xFF, 0xFF, 0xFF, 0, 0, 1, 8]

/-- A portable executable with one section that is named for a table, one that is named for it and
empty, and read-only data. -/
def sampleExecutable : Image where
  format := .portableExecutable
  sections := [⟨utf8 ".rdata", 0x3000, sampleRdata⟩, ⟨utf8 "__gopclntab", 0x2000, #[]⟩,
    ⟨utf8 ".gopclntab", 0x1000, #[1, 2, 3]⟩]

/-- A program that runs 0x10000 bytes behind the addresses of its binary. -/
def sampleMemory : Memory := (⟨∅, 0x10000⟩ : MappedMemory).toMemory

/-- Where the user insists, the tables of 1.2 come before that of 1.16, although they lie behind it.
Where the user left it open, the call after the named section gives up. -/
theorem Locator.call_start_sample :
    (∀ n, Locator.call sampleExecutable sampleMemory 4 n .start .force =
      ([⟨#[1, 2, 3], 0x1000, 0x11000⟩, ⟨sampleRdata.extract 8, 0x3008, 0x13008⟩,
        ⟨sampleRdata.extract 16, 0x3010, 0x13010⟩, ⟨sampleRdata, 0x3000, 0x13000⟩][n]?,
        .force)) ∧
    ∀ n, Locator.call sampleExecutable sampleMemory 4 n .start .auto =
      ([⟨#[1, 2, 3], 0x1000, 0x11000⟩][n]?, if 1 ≤ n then .disable else .auto) := by
  have forced : candidates sampleExecutable sampleMemory 4 .force =
      [⟨#[1, 2, 3], 0x1000, 0x11000⟩, ⟨sampleRdata.extract 8, 0x3008, 0x13008⟩,
        ⟨sampleRdata.extract 16, 0x3010, 0x13010⟩, ⟨sampleRdata, 0x3000, 0x13000⟩] := by rfl
  have unforced : candidates sampleExecutable sampleMemory 4 .auto =
      [⟨#[1, 2, 3], 0x1000, 0x11000⟩] := by rfl
  have named : (tableSections sampleExecutable sampleMemory).length = 1 := by rfl
  constructor
  · intro n
    rw [(Locator.call_start sampleExecutable sampleMemory 4 .force).1 n, forced, if_neg (by simp)]
  · intro n
    rw [(Locator.call_start sampleExecutable sampleMemory 4 .auto).1 n, unforced, named]
    simp [sampleExecutable]

end FunctionTable

end GoInspect
