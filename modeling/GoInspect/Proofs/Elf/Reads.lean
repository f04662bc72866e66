import GoInspect.Elf
import GoInspect.Proofs.Bytes

/-!
# Reads of a file that is not running

A read is put together section by section: each part comes from the first section that occupies
memory where the part begins, and goes up to the end of that section. Whether a read succeeds
depends on the addresses alone, so that it can be split anywhere. Its bytes can be split too, unless
a section is followed to where one that is listed before it begins, and that one holds other bytes.
-/

namespace GoInspect

namespace ElfSection

variable {s : ElfSection} {address : UInt64}

/-- The contents are as long as the section, where it has any. -/
def IsWhole (s : ElfSection) : Prop := s.isZero = false → s.data.size = s.size.toNat

/-- The byte of the section at an address that it covers. -/
def byteAt (s : ElfSection) (address : UInt64) : UInt8 :=
  if s.isZero then 0 else s.data.getD (address - s.address).toNat 0

/-- The number of bytes of the section from an address on. -/
def left (s : ElfSection) (address : UInt64) : Nat := s.size.toNat - (address - s.address).toNat

/-- A section that begins behind the first address of another one, and in it. -/
def BeginsInside (s other : ElfSection) : Prop :=
  other.address < s.address ∧ other.contains s.address = true

theorem contains_iff : s.contains address = true ↔
    s.address.toNat ≤ address.toNat ∧ address.toNat < s.address.toNat + s.size.toNat := by
  rw [contains, Bool.and_eq_true, decide_eq_true_iff, decide_eq_true_iff, UInt64.le_iff_toNat_le,
    UInt64.lt_iff_toNat_lt]
  constructor
  · intro ⟨behind, below⟩
    rw [UInt64.toNat_sub_of_le _ _ (UInt64.le_iff_toNat_le.mpr behind)] at below
    omega
  · intro ⟨behind, below⟩
    rw [UInt64.toNat_sub_of_le _ _ (UInt64.le_iff_toNat_le.mpr behind)]
    omega

theorem toNat_sub (covers : s.contains address = true) :
    (address - s.address).toNat = address.toNat - s.address.toNat :=
  UInt64.toNat_sub_of_le _ _ (UInt64.le_iff_toNat_le.mpr (contains_iff.mp covers).1)

theorem left_eq (covers : s.contains address = true) :
    s.left address = s.address.toNat + s.size.toNat - address.toNat := by
  have bounds := contains_iff.mp covers
  rw [left, toNat_sub covers]
  omega

/-- What is left of the section from an address on is covered by it. -/
theorem contains_add_iff (covers : s.contains address = true) {i : Nat}
    (room : address.toNat + i < 2 ^ 64) :
    s.contains (address + UInt64.ofNat i) = true ↔ i < s.left address := by
  have bounds := contains_iff.mp covers
  rw [contains_iff, toNat_add_ofNat room, left_eq covers]
  omega

theorem IsWhole.size_bytesFrom (whole : s.IsWhole) (address : UInt64) (count : Nat) :
    (s.bytesFrom address count).size = min count (s.left address) := by
  cases zero : s.isZero with
  | true => simp [bytesFrom, zero, left]
  | false =>
      have size := whole zero
      simp only [bytesFrom, zero, Bool.false_eq_true, if_false, Bytes.slice, Array.size_extract,
        left]
      omega

theorem IsWhole.getElem?_bytesFrom (whole : s.IsWhole) (covers : s.contains address = true)
    {count i : Nat} (inside : i < min count (s.left address))
    (room : address.toNat + i < 2 ^ 64) :
    (s.bytesFrom address count)[i]? = some (s.byteAt (address + UInt64.ofNat i)) := by
  have found : i < (s.bytesFrom address count).size := by
    rw [whole.size_bytesFrom]
    exact inside
  rw [Array.getElem?_eq_getElem found]
  cases zero : s.isZero with
  | true => simp [bytesFrom, byteAt, zero]
  | false =>
      have covers' := (contains_add_iff covers room).mpr
        (Nat.lt_of_lt_of_le inside (Nat.min_le_right _ _))
      have place : (address + UInt64.ofNat i - s.address).toNat =
          (address - s.address).toNat + i := by
        have bounds := contains_iff.mp covers
        rw [toNat_sub covers', toNat_sub covers, toNat_add_ofNat room]
        omega
      have held : (address - s.address).toNat + i < s.data.size := by
        have bounds := contains_iff.mp covers
        have bounds' := contains_iff.mp covers'
        rw [toNat_add_ofNat room] at bounds'
        rw [whole zero, toNat_sub covers]
        omega
      simp only [bytesFrom, byteAt, zero, Bool.false_eq_true, if_false, Bytes.slice,
        Array.getElem_extract, place, Array.getD_eq_getD_getElem?, Array.getElem?_eq_getElem held,
        Option.getD_some]

end ElfSection

namespace ElfFile

variable {e : ElfFile} {s : ElfSection} {address : UInt64}

/-- The sections hold as many bytes as they cover. -/
def IsWhole (e : ElfFile) : Prop := ∀ s ∈ e.sections, s.IsWhole

/-- The byte that a read gives for the address it begins at. -/
def byteAt? (e : ElfFile) (address : UInt64) : Option UInt8 :=
  (e.sectionAt? address).map (·.byteAt address)

theorem sectionAt?_spec (found : e.sectionAt? address = some s) :
    s ∈ e.sections ∧ s.isAllocated = true ∧ s.contains address = true := by
  have holds := List.find?_some found
  exact ⟨List.mem_of_find?_eq_some found, Bool.and_eq_true_iff.mp holds⟩

theorem isSome_sectionAt? (mem : s ∈ e.sections) (allocated : s.isAllocated = true)
    (covers : s.contains address = true) : (e.sectionAt? address).isSome = true :=
  List.find?_isSome.mpr ⟨s, mem, Bool.and_eq_true_iff.mpr ⟨allocated, covers⟩⟩

theorem gather?_zero (e : ElfFile) (address : UInt64) : e.gather? address 0 = some #[] := by
  rw [gather?, dif_pos rfl]

theorem gather?_of_none {n : Nat} (pos : n ≠ 0) (unmapped : e.sectionAt? address = none) :
    e.gather? address n = none := by
  rw [gather?, dif_neg pos]
  simp [unmapped]

/-- One part of a read, and what is put behind it. -/
theorem IsWhole.gather?_of_section (whole : e.IsWhole) {n : Nat} (pos : n ≠ 0)
    (found : e.sectionAt? address = some s) :
    0 < min n (s.left address) ∧ e.gather? address n =
      (e.gather? (address + UInt64.ofNat (min n (s.left address)))
        (n - min n (s.left address))).map (s.bytesFrom address n ++ ·) := by
  obtain ⟨mem, -, covers⟩ := sectionAt?_spec found
  have size := (whole s mem).size_bytesFrom address n
  have pos' : 0 < min n (s.left address) := by
    have bounds := ElfSection.contains_iff.mp covers
    rw [ElfSection.left_eq covers]
    omega
  refine ⟨pos', ?_⟩
  rw [gather?, dif_neg pos, found]
  simp only [Option.map_some, size, dif_neg (Nat.ne_of_gt pos'), Nat.toUInt64_eq]

/-- A read that ends in the section it begins in has one part. -/
theorem IsWhole.gather?_within (whole : e.IsWhole) {n : Nat} (pos : n ≠ 0)
    (found : e.sectionAt? address = some s) (inside : n ≤ s.left address) :
    e.gather? address n = some (s.bytesFrom address n) := by
  obtain ⟨-, parts⟩ := whole.gather?_of_section pos found
  rw [parts, Nat.min_eq_left inside, Nat.sub_self, gather?_zero, Option.map_some,
    Array.append_empty]

theorem IsWhole.gather?_one (whole : e.IsWhole) (address : UInt64) :
    e.gather? address 1 = (e.byteAt? address).map fun b => #[b] := by
  cases found : e.sectionAt? address with
  | none => rw [gather?_of_none Nat.one_ne_zero found, byteAt?, found, Option.map_none,
      Option.map_none]
  | some s =>
      obtain ⟨mem, -, covers⟩ := sectionAt?_spec found
      have bounds := ElfSection.contains_iff.mp covers
      have reach : 0 < s.left address := by
        rw [ElfSection.left_eq covers]
        omega
      have size := (whole s mem).size_bytesFrom address 1
      have byte : (s.bytesFrom address 1)[0]? = some (s.byteAt address) := by
        rw [(whole s mem).getElem?_bytesFrom covers (by omega) address.toNat_lt,
          show address + UInt64.ofNat 0 = address from UInt64.add_zero address]
      rw [whole.gather?_within Nat.one_ne_zero found reach, byteAt?, found, Option.map_some,
        Option.map_some]
      apply congrArg some
      apply Array.ext_getElem?
      intro i
      cases i with
      | zero => exact byte
      | succ i => rw [Array.getElem?_eq_none (by omega), Array.getElem?_eq_none (by simp)]

/-- A read succeeds where sections occupy the memory. -/
theorem IsWhole.isSome_gather?_iff (whole : e.IsWhole) {n : Nat}
    (room : address.toNat + n ≤ 2 ^ 64) :
    (e.gather? address n).isSome = true ↔
      ∀ i < n, (e.sectionAt? (address + UInt64.ofNat i)).isSome = true := by
  induction n using Nat.strongRecOn generalizing address with
  | ind n ih =>
    by_cases pos : n = 0
    · subst pos
      simp [gather?_zero]
    cases found : e.sectionAt? address with
    | none =>
        rw [gather?_of_none pos found]
        constructor
        · intro h
          cases h
        · intro covered
          have first := covered 0 (Nat.pos_of_ne_zero pos)
          rw [show address + UInt64.ofNat 0 = address from UInt64.add_zero address, found] at first
          cases first
    | some s =>
        obtain ⟨mem, allocated, covers⟩ := sectionAt?_spec found
        obtain ⟨pos', parts⟩ := whole.gather?_of_section pos found
        -- What is left is shorter, and begins where the section or the read ends.
        generalize size : min n (s.left address) = k at pos' parts
        have rest := @ih (n - k) (by omega) (address + UInt64.ofNat k)
        rw [parts, Option.isSome_map]
        by_cases last : k = n
        · subst last
          simp only [Nat.sub_self, gather?_zero, Option.isSome_some, true_iff]
          intro i before
          exact isSome_sectionAt? mem allocated
            ((ElfSection.contains_add_iff covers (by omega)).mpr (by omega))
        rw [rest (by rw [toNat_add_ofNat (by omega)]; omega)]
        constructor
        · intro covered i before
          by_cases inside : i < k
          · exact isSome_sectionAt? mem allocated
              ((ElfSection.contains_add_iff covers (by omega)).mpr (by omega))
          · have there := covered (i - k) (by omega)
            rwa [add_ofNat_add_ofNat, Nat.add_sub_cancel' (Nat.not_lt.mp inside)] at there
        · intro covered i before
          rw [add_ofNat_add_ofNat]
          exact covered (k + i) (by omega)

theorem IsWhole.size_gather? (whole : e.IsWhole) {n : Nat} {bytes : Bytes}
    (read : e.gather? address n = some bytes) : bytes.size = n := by
  induction n using Nat.strongRecOn generalizing address bytes with
  | ind n ih =>
    by_cases pos : n = 0
    · subst pos
      rw [gather?_zero] at read
      cases read
      rfl
    cases found : e.sectionAt? address with
    | none =>
        rw [gather?_of_none pos found] at read
        cases read
    | some s =>
        obtain ⟨pos', parts⟩ := whole.gather?_of_section pos found
        rw [parts] at read
        obtain ⟨rest, read', rfl⟩ := Option.map_eq_some_iff.mp read
        rw [Array.size_append, ih _ (by omega) read',
          (whole s (sectionAt?_spec found).1).size_bytesFrom]
        omega

/-- Between two places, every section that is followed from one address to another one holds there
what the first section at that address holds. -/
def AgreesWithin (e : ElfFile) (low high : Nat) : Prop :=
  ∀ (s : ElfSection) (x y : UInt64), low ≤ x.toNat → x ≤ y → y.toNat < high →
    e.sectionAt? x = some s → s.contains y = true → e.byteAt? y = some (s.byteAt y)

/-- Where sections agree, a read gives for each address what a read gives that begins there. -/
theorem IsWhole.getElem?_gather? (whole : e.IsWhole) {low high n : Nat}
    (agrees : e.AgreesWithin low high) (behind : low ≤ address.toNat)
    (before : address.toNat + n ≤ high) (room : high < 2 ^ 64) {bytes : Bytes}
    (read : e.gather? address n = some bytes) {i : Nat} (inside : i < n) :
    bytes[i]? = e.byteAt? (address + UInt64.ofNat i) := by
  induction n using Nat.strongRecOn generalizing address bytes i with
  | ind n ih =>
    have pos : n ≠ 0 := Nat.ne_of_gt (Nat.zero_lt_of_lt inside)
    cases found : e.sectionAt? address with
    | none =>
        rw [gather?_of_none pos found] at read
        cases read
    | some s =>
        obtain ⟨mem, -, covers⟩ := sectionAt?_spec found
        obtain ⟨pos', parts⟩ := whole.gather?_of_section pos found
        rw [parts] at read
        obtain ⟨rest, read', rfl⟩ := Option.map_eq_some_iff.mp read
        have size := (whole s mem).size_bytesFrom address n
        generalize reach : min n (s.left address) = k at pos' read' size
        by_cases here : i < k
        · have place : (address + UInt64.ofNat i).toNat = address.toNat + i :=
            toNat_add_ofNat (by omega)
          have there := agrees s address (address + UInt64.ofNat i) behind
            (UInt64.le_iff_toNat_le.mpr (by omega)) (by omega) found
            ((ElfSection.contains_add_iff covers (by omega)).mpr (by omega))
          rw [Array.getElem?_append_left (by omega), there]
          exact (whole s mem).getElem?_bytesFrom covers (by omega) (by omega)
        · have place : (address + UInt64.ofNat k).toNat = address.toNat + k :=
            toNat_add_ofNat (by omega)
          have later := ih (n - k) (by omega) (by omega) (by omega) read'
            (show i - k < n - k by omega)
          rw [Array.getElem?_append_right (by omega), size, later, add_ofNat_add_ofNat,
            Nat.add_sub_cancel' (Nat.not_lt.mp here)]

/-- A read that does not reach the end of the address space is put together of sections. -/
theorem readBytes_eq_ok_iff {length : UInt64} {bytes : Bytes}
    (room : address.toNat + length.toNat < 2 ^ 64) :
    e.readBytes address length = .ok bytes ↔ e.gather? address length.toNat = some bytes := by
  have upward : ¬ address + length < address := by
    rw [UInt64.lt_iff_toNat_lt, toNat_add room]
    omega
  rw [readBytes, if_neg upward]
  cases e.gather? address length.toNat <;> simp

theorem isOk_readBytes_iff {length : UInt64} (room : address.toNat + length.toNat < 2 ^ 64) :
    (e.readBytes address length).isOk = true ↔ (e.gather? address length.toNat).isSome = true := by
  rw [Option.isSome_iff_exists]
  constructor
  · intro ok
    cases read : e.readBytes address length with
    | error _ => simp [read, Except.isOk, Except.toBool] at ok
    | ok bytes => exact ⟨bytes, (readBytes_eq_ok_iff room).mp read⟩
  · intro ⟨bytes, read⟩
    rw [(readBytes_eq_ok_iff room).mpr read]
    rfl

/-- The bytes of reads between two places are those of the parts that a read is split into. -/
def SplitsWithin (e : ElfFile) (low high : Nat) : Prop :=
  ∀ (address m n : UInt64) (bytes first second : Bytes), low ≤ address.toNat →
    address.toNat + m.toNat + n.toNat ≤ high → e.readBytes address (m + n) = .ok bytes →
    e.readBytes address m = .ok first → e.readBytes (address + m) n = .ok second →
    bytes = first ++ second

theorem IsWhole.splitsWithin (whole : e.IsWhole) {low high : Nat} (room : high < 2 ^ 64)
    (agrees : e.AgreesWithin low high) : e.SplitsWithin low high := by
  intro address m n bytes first second behind before read read' read''
  have sum : (m + n).toNat = m.toNat + n.toNat := toNat_add (by omega)
  have middle : (address + m).toNat = address.toNat + m.toNat := toNat_add (by omega)
  rw [readBytes_eq_ok_iff (by omega)] at read read' read''
  rw [sum] at read
  have size := whole.size_gather? read
  have size' := whole.size_gather? read'
  have size'' := whole.size_gather? read''
  apply Array.ext_getElem?
  intro i
  by_cases early : i < m.toNat
  · rw [Array.getElem?_append_left (by omega),
      whole.getElem?_gather? agrees behind (by omega) room read (by omega),
      whole.getElem?_gather? agrees behind (by omega) room read' early]
  by_cases late : i < m.toNat + n.toNat
  · have place : address + m + UInt64.ofNat (i - m.toNat) = address + UInt64.ofNat i := by
      rw [← UInt64.ofNat_toNat (x := m), add_ofNat_add_ofNat, UInt64.ofNat_toNat,
        Nat.add_sub_cancel' (Nat.not_lt.mp early)]
    rw [Array.getElem?_append_right (by omega), size',
      whole.getElem?_gather? agrees behind (by omega) room read late,
      whole.getElem?_gather? agrees (by omega) (by omega) room read'' (by omega), place]
  · rw [Array.getElem?_eq_none (by omega), Array.getElem?_eq_none]
    rw [Array.size_append]
    omega

/-- A section that is followed from one address to another one is read in one part, and the split
read chooses again at the second address. -/
theorem IsWhole.agreesWithin (whole : e.IsWhole) {low high : Nat} (room : high < 2 ^ 64)
    (splits : e.SplitsWithin low high) : e.AgreesWithin low high := by
  intro s x y behind order before found covers
  obtain ⟨mem, allocated, covers'⟩ := sectionAt?_spec found
  obtain ⟨t, found'⟩ := Option.isSome_iff_exists.mp (isSome_sectionAt? mem allocated covers)
  have order' := UInt64.le_iff_toNat_le.mp order
  have length : (y - x).toNat = y.toNat - x.toNat := UInt64.toNat_sub_of_le _ _ order
  generalize distance : y.toNat - x.toNat = k at length
  have there : x + (y - x) = y := by rw [UInt64.add_comm, UInt64.sub_add_cancel]
  have place : x + UInt64.ofNat k = y := by rw [← length, UInt64.ofNat_toNat, there]
  have one : (1 : UInt64).toNat = 1 := rfl
  have sum : (y - x + 1).toNat = k + 1 := by rw [toNat_add (by omega), length, one]
  have reach : k < s.left x := by
    rw [← ElfSection.contains_add_iff covers' (by omega), place]
    exact covers
  have read := whole.gather?_within (Nat.succ_ne_zero k) found reach
  have read' := whole.gather?_one y
  rw [byteAt?, found', Option.map_some, Option.map_some] at read'
  -- Up to the second address the read is part of the one that goes on to it.
  have mapped : (e.gather? x k).isSome = true := by
    rw [whole.isSome_gather?_iff (by omega)]
    intro i inside
    exact (whole.isSome_gather?_iff (by omega)).mp (Option.isSome_of_eq_some read) i (by omega)
  obtain ⟨first, readFirst⟩ := Option.isSome_iff_exists.mp mapped
  have joined : s.bytesFrom x (k + 1) = first ++ #[t.byteAt y] := by
    apply splits x (y - x) 1 _ _ _ behind (by omega)
    · rw [readBytes_eq_ok_iff (by omega), sum]
      exact read
    · rw [readBytes_eq_ok_iff (by omega), length]
      exact readFirst
    · rw [there, readBytes_eq_ok_iff (by omega)]
      exact read'
  have last : (s.bytesFrom x (k + 1))[k]? = some (s.byteAt y) := by
    rw [(whole s mem).getElem?_bytesFrom covers' (by omega) (by omega), place]
  rw [joined, Array.getElem?_append_right (by rw [whole.size_gather? readFirst]),
    whole.size_gather? readFirst, Nat.sub_self] at last
  rw [byteAt?, found', Option.map_some]
  exact last

/-- Sections are listed in order if none of those that occupy memory begins inside a later one. -/
def IsOrdered (e : ElfFile) : Prop :=
  e.sections.Pairwise fun s other =>
    s.isAllocated = true → other.isAllocated = true → ¬ s.BeginsInside other

theorem IsOrdered.agreesWithin (ordered : e.IsOrdered) (low high : Nat) :
    e.AgreesWithin low high := by
  intro s x y _ order _ found covers
  obtain ⟨mem, allocated, covers'⟩ := sectionAt?_spec found
  obtain ⟨t, found'⟩ := Option.isSome_iff_exists.mp (isSome_sectionAt? mem allocated covers)
  obtain ⟨_, allocatedT, coversT⟩ := sectionAt?_spec found'
  suffices same : t = s by rw [byteAt?, found', same, Option.map_some]
  obtain ⟨_, front, back, listed, others⟩ := List.find?_eq_some_iff_append.mp found'
  -- The section is not listed before the other one, since it covers the later address as well.
  have absent : s ∉ front := by
    intro early
    have refused := others s early
    simp [allocated, covers] at refused
  have bounds := ElfSection.contains_iff.mp covers
  have bounds' := ElfSection.contains_iff.mp covers'
  have boundsT := ElfSection.contains_iff.mp coversT
  have order' := UInt64.le_iff_toNat_le.mp order
  by_cases reaches : t.contains x = true
  · -- The other section is found at the first address already.
    rw [sectionAt?, listed, List.find?_append] at found
    cases early : front.find? fun s => s.isAllocated && s.contains x with
    | some u =>
        rw [early, Option.some_or] at found
        exact absurd (Option.some.inj found ▸ List.mem_of_find?_eq_some early) absent
    | none =>
        rw [early, Option.none_or, List.find?_cons_of_pos (by simp [allocatedT, reaches])] at found
        exact Option.some.inj found
  · have begins : t.BeginsInside s := by
      rw [ElfSection.contains_iff] at reaches
      refine ⟨UInt64.lt_iff_toNat_lt.mpr (by omega), ElfSection.contains_iff.mpr (by omega)⟩
    rw [listed] at mem
    obtain early | rfl | late := (List.mem_append.mp mem).imp_right List.mem_cons.mp
    · exact absurd early absent
    · rfl
    · rw [IsOrdered, listed, List.pairwise_append, List.pairwise_cons] at ordered
      exact absurd begins (ordered.2.1.1 s late allocatedT allocated)

/-- A step of parsing gives a result with a property. -/
def Leaves (file : Bytes) {α : Type} (step : Parsing α) (P : α → Prop) : Prop :=
  ∀ before, P ((step.run file).run before).value.1

namespace Leaves

variable {file : Bytes} {α β : Type} {P Q : α → Prop} {R : β → Prop}

theorem pure {a : α} (holds : P a) : Leaves file (pure a) P := fun _ => holds

theorem any (step : Parsing α) : Leaves file step fun _ => True := fun _ => trivial

theorem bind {step : Parsing α} {next : α → Parsing β} (first : Leaves file step P)
    (then' : ∀ a, P a → Leaves file (next a) R) : Leaves file (step >>= next) R :=
  fun before => then' _ (first before) _

theorem bind_fileSize {next : UInt64 → Parsing β}
    (then' : Leaves file (next file.size.toUInt64) R) : Leaves file (fileSize >>= next) R := then'

theorem ite {p : Prop} [Decidable p] {step step' : Parsing α} (first : p → Leaves file step P)
    (second : ¬p → Leaves file step' P) : Leaves file (if p then step else step') P := by
  split
  · exact first ‹_›
  · exact second ‹_›

end Leaves

section Parsed

variable {file : Bytes}

theorem contentsOf_leaves {header : SectionHeader}
    (fits : (!header.isZero && !header.fits file.size.toUInt64) = false) :
    Leaves file (contentsOf header) fun data =>
      header.isZero = false → data.size = header.size.toNat := by
  refine .ite (fun zero => .pure fun nonzero => ?_) fun nonzero => ?_
  · rw [zero] at nonzero
    cases nonzero
  intro before _
  have inside : header.contents ≤ file.size.toUInt64 ∧
      header.size ≤ file.size.toUInt64 - header.contents := by
    simpa [nonzero, SectionHeader.fits] using fits
  have order := UInt64.le_iff_toNat_le.mp inside.1
  have order' := UInt64.le_iff_toNat_le.mp inside.2
  rw [UInt64.toNat_sub_of_le _ _ inside.1] at order'
  -- The size of the file is taken as a word, which is never more than the size itself.
  have small : file.size.toUInt64.toNat ≤ file.size := Nat.mod_le _ _
  change (file.slice header.contents.toNat header.size.toNat).size = header.size.toNat
  rw [Bytes.slice, Array.size_extract]
  omega

theorem sectionOf_leaves {names header : SectionHeader}
    (fits : (!header.isZero && !header.fits file.size.toUInt64) = false) :
    Leaves file (sectionOf names header) ElfSection.IsWhole :=
  .bind (contentsOf_leaves fits) fun _ size => .bind (.any _) fun _ _ => .pure size

theorem sectionsFrom_leaves (l : Layout) (h : Header) (names : SectionHeader) (count index : Nat) :
    Leaves file (sectionsFrom l h names count index) fun found =>
      ∀ sections, found = some sections → ∀ s ∈ sections, s.IsWhole := by
  induction count generalizing index with
  | zero =>
      refine .pure ?_
      intro sections found
      cases found
      exact List.forall_mem_nil _
  | succ count ih =>
      refine .bind (.any _) fun found _ => ?_
      cases found with
      | none => exact .bind (.any _) fun _ _ => .pure fun _ found => nomatch found
      | some header =>
          refine .bind_fileSize (.ite (fun _ => ?_) fun fits => ?_)
          · exact .bind (.any _) fun _ _ => .bind (.any _) fun _ _ => ih _
          · refine .bind (sectionOf_leaves (Bool.eq_false_iff.mpr fits)) fun first whole => ?_
            refine .bind (ih _) fun rest others => .pure ?_
            intro sections found
            obtain ⟨rest, rfl, rfl⟩ := Option.map_eq_some_iff.mp found
            exact List.forall_mem_cons.mpr ⟨whole, others rest rfl⟩

theorem ofHeaders_leaves (path : Text) (l : Layout) :
    Leaves file (ofHeaders path l) fun parsed => ∀ e, parsed = some e → e.IsWhole := by
  refine .bind_fileSize (.ite (fun _ => .pure fun _ parsed => nomatch parsed) fun _ => ?_)
  refine .bind (.any _) fun _ _ => .bind (.any _) fun found _ => ?_
  split
  · exact .bind (.any _) fun _ _ => .pure fun _ parsed => nomatch parsed
  · refine .bind (sectionsFrom_leaves l _ _ _ _) fun found whole => ?_
    cases found with
    | none => exact .pure fun _ parsed => nomatch parsed
    | some sections =>
        refine .bind (.any _) fun _ _ => .pure ?_
        intro e parsed
        cases parsed
        exact whole sections rfl

end Parsed

/-- Sections whose contents lie outside the file are left out, so that those that are kept are
whole. -/
theorem isWhole_of_open {t : FileTree} {path : Text}
    (opened : (ElfFile.open t path).value = some e) : e.IsWhole := by
  have parsed (file : Bytes) (h : (ofBytes path file).value = some e) : e.IsWhole := by
    rw [ofBytes] at h
    split at h
    · cases h
    · exact ofHeaders_leaves path _ [] e h
  rw [ElfFile.open, Logged.value_bind] at opened
  split at opened
  · split at opened
    · cases opened
    · exact parsed _ opened
  · cases opened

/-- Reads of a file that was opened can be split anywhere as far as they succeed. Their bytes can be
split between two places exactly if the sections agree there, as they do if they are listed in
order. -/
theorem readBytes_split {t : FileTree} {path : Text}
    (opened : (ElfFile.open t path).value = some e) :
    (∀ address m n : UInt64, address.toNat + m.toNat + n.toNat < 2 ^ 64 →
      ((e.readBytes address (m + n)).isOk = true ↔
        (e.readBytes address m).isOk = true ∧ (e.readBytes (address + m) n).isOk = true)) ∧
    (∀ low high, high < 2 ^ 64 → (e.SplitsWithin low high ↔ e.AgreesWithin low high)) ∧
    (e.IsOrdered → ∀ low high, e.AgreesWithin low high) := by
  have whole := isWhole_of_open opened
  refine ⟨?_, ?_, fun ordered => ordered.agreesWithin⟩
  · intro address m n room
    have sum : (m + n).toNat = m.toNat + n.toNat := toNat_add (by omega)
    have middle : (address + m).toNat = address.toNat + m.toNat := toNat_add (by omega)
    rw [isOk_readBytes_iff (by omega), isOk_readBytes_iff (by omega), isOk_readBytes_iff (by omega),
      whole.isSome_gather?_iff (by omega), whole.isSome_gather?_iff (by omega),
      whole.isSome_gather?_iff (by omega), sum]
    have place (i : Nat) : address + m + UInt64.ofNat i = address + UInt64.ofNat (m.toNat + i) := by
      rw [← add_ofNat_add_ofNat, UInt64.ofNat_toNat]
    simp only [place]
    constructor
    · intro mapped
      exact ⟨fun i inside => mapped i (by omega), fun i inside => mapped _ (by omega)⟩
    · intro ⟨first, second⟩ i inside
      by_cases early : i < m.toNat
      · exact first i early
      · have later := second (i - m.toNat) (by omega)
        rwa [Nat.add_sub_cancel' (Nat.not_lt.mp early)] at later
  · intro low high room
    exact ⟨whole.agreesWithin room, whole.splitsWithin room⟩

/-- A file with two sections. The first one covers the second byte of the other one, and holds
another byte there. -/
def overlaid : Bytes :=
  magic ++ #[1] ++ Array.replicate 27 0 ++ #[52, 0, 0, 0] ++ Array.replicate 10 0 ++
    #[40, 0, 2, 0, 0, 0] ++
    #[5, 0, 0, 0, 1, 0, 0, 0, 2, 0, 0, 0, 0x01, 0x10, 0, 0, 0, 0, 0, 0, 1, 0, 0, 0] ++
    Array.replicate 16 0 ++
    #[5, 0, 0, 0, 1, 0, 0, 0, 2, 0, 0, 0, 0x00, 0x10, 0, 0, 1, 0, 0, 0, 2, 0, 0, 0] ++
    Array.replicate 16 0

/-- The working directory of the file. -/
def overlaidTree : FileTree := ⟨[([utf8 "prog"], .file overlaid)], []⟩

theorem gather?_overlaid :
    (ElfFile.open overlaidTree (utf8 "prog")).value.map (fun e =>
      (e.gather? 0x1000 2, e.gather? 0x1000 1, e.gather? 0x1001 1)) =
      some (some #[0x45, 0x4C], some #[0x45], some #[0x7F]) := by
  decide +kernel

theorem exists_overlaid : ∃ e, (ElfFile.open overlaidTree (utf8 "prog")).value = some e ∧
    e.readBytes 0x1000 (1 + 1) = .ok #[0x45, 0x4C] ∧ e.readBytes 0x1000 1 = .ok #[0x45] ∧
    e.readBytes (0x1000 + 1) 1 = .ok #[0x7F] := by
  obtain ⟨e, opened, reads⟩ := Option.map_eq_some_iff.mp gather?_overlaid
  rw [Prod.mk.injEq, Prod.mk.injEq] at reads
  obtain ⟨whole, first, second⟩ := reads
  exact ⟨e, opened, (readBytes_eq_ok_iff (by decide)).mpr whole,
    (readBytes_eq_ok_iff (by decide)).mpr first, (readBytes_eq_ok_iff (by decide)).mpr second⟩

/-- The bytes of a read are not always those of the parts it is split into: the two sections of the
file are allocated, and overlap in one byte. -/
theorem readBytes_overlaid_ne : ∃ (e : ElfFile) (bytes first second : Bytes),
    (ElfFile.open overlaidTree (utf8 "prog")).value = some e ∧
      e.readBytes 0x1000 (1 + 1) = .ok bytes ∧ e.readBytes 0x1000 1 = .ok first ∧
      e.readBytes (0x1000 + 1) 1 = .ok second ∧ bytes ≠ first ++ second := by
  obtain ⟨e, opened, whole, first, second⟩ := exists_overlaid
  exact ⟨e, _, _, _, opened, whole, first, second, by decide⟩

theorem readBytes_split_overlaid :
    ∃ e, (ElfFile.open overlaidTree (utf8 "prog")).value = some e ∧
      (e.readBytes 0x1000 (1 + 1)).isOk = true ∧ ¬ e.AgreesWithin 0x1000 0x1002 := by
  obtain ⟨e, opened, whole, first, second⟩ := exists_overlaid
  obtain ⟨succeeds, splits, -⟩ := readBytes_split opened
  refine ⟨e, opened, ?_, ?_⟩
  · rw [succeeds 0x1000 1 1 (by decide), first, second]
    exact ⟨rfl, rfl⟩
  · rw [← splits _ _ (by decide)]
    intro joined
    have same := joined 0x1000 1 1 _ _ _ (by decide) (by decide) whole first second
    exact absurd same (by decide)

end ElfFile

end GoInspect
