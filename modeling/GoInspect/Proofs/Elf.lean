import GoInspect.Elf
import GoInspect.Proofs.Bytes

/-!
# What parsing an ELF file looks at

Each stretch of the file is checked before it is looked at. The check of names and contents holds
them inside the file. The check of a section header adds its size to its place, and the sum can wrap
around: a header that begins right below the top of the address space passes the check, although it
lies outside the file.
-/

namespace GoInspect

namespace ElfFile

/-- The stretch lies in a file of a size. -/
def Span.Inside (s : Span) (size : Nat) : Prop := s.start.toNat + s.length.toNat ≤ size

/-- The header of a file. -/
def fileHeaderOf (l : Layout) (file : Bytes) : Header := header l (stretch file 0 l.headerSize)

/-- A stretch has passed the check for what it is looked at. -/
inductive Checked (l : Layout) (file : Bytes) : Span → Prop where
  | fileHeader (fits : l.headerSize ≤ file.size.toUInt64) :
      Checked l file ⟨.fileHeader, 0, l.headerSize⟩
  | sectionHeader {index start : UInt64}
      (counted : index = (fileHeaderOf l file).namesIndex ∨ index < (fileHeaderOf l file).count)
      (placed : (fileHeaderOf l file).position? l file.size.toUInt64 index = some start) :
      Checked l file ⟨.sectionHeader, start, l.sectionHeaderSize⟩
  | name {start length : UInt64}
      (fits : start.toNat + length.toNat ≤ file.size.toUInt64.toNat) :
      Checked l file ⟨.name, start, length⟩
  | contents {start length : UInt64}
      (fits : start.toNat + length.toNat ≤ file.size.toUInt64.toNat) :
      Checked l file ⟨.contents, start, length⟩

/-- A step looks at checked stretches only. -/
def Looks (l : Layout) (file : Bytes) {α : Type} (step : Parsing α) : Prop :=
  ∀ before, (∀ s ∈ before, Checked l file s) →
    ∀ s ∈ ((step.run file).run before).value.2, Checked l file s

namespace Looks

variable {l : Layout} {file : Bytes} {α β : Type}

theorem pure (a : α) : Looks l file (pure a) := fun _ checked => checked

theorem log (e : Event) : Looks l file (Logged.event e) := fun _ checked => checked

theorem look {part : Part} {start length : UInt64} (check : Checked l file ⟨part, start, length⟩) :
    Looks l file (look part start length) :=
  fun _ checked => List.forall_mem_cons.mpr ⟨check, checked⟩

theorem bind {step : Parsing α} {next : α → Parsing β} (first : Looks l file step)
    (then' : ∀ a, Looks l file (next a)) : Looks l file (step >>= next) :=
  fun before checked => then' _ _ (first before checked)

theorem bind_read {next : Bytes → Parsing β} (then' : Looks l file (next file)) :
    Looks l file (read >>= next) := then'

theorem bind_fileSize {next : UInt64 → Parsing β}
    (then' : Looks l file (next file.size.toUInt64)) : Looks l file (fileSize >>= next) := then'

theorem bind_copy {part : Part} {start length : UInt64} {next : Bytes → Parsing β}
    (check : Checked l file ⟨part, start, length⟩)
    (then' : Looks l file (next (stretch file start length))) :
    Looks l file (copy part start length >>= next) :=
  fun _ checked => then' _ (List.forall_mem_cons.mpr ⟨check, checked⟩)

theorem ite {p : Prop} [Decidable p] {step step' : Parsing α} (first : p → Looks l file step)
    (second : ¬p → Looks l file step') : Looks l file (if p then step else step') := by
  split
  · exact first ‹_›
  · exact second ‹_›

end Looks

variable {l : Layout} {file : Bytes}

theorem Header.position_spec {h : Header} {size index start : UInt64}
    (placed : h.position? l size index = some start) :
    h.tableStart + index * h.entrySize = start ∧ start + l.sectionHeaderSize ≤ size := by
  simp only [Header.position?] at placed
  split at placed
  · cases placed
  · next passes =>
    obtain rfl := Option.some.inj placed
    exact ⟨rfl, UInt64.not_lt.mp (not_or.mp passes).2⟩

theorem sectionHeader?_looks {index : UInt64}
    (counted : index = (fileHeaderOf l file).namesIndex ∨ index < (fileHeaderOf l file).count) :
    Looks l file (sectionHeader? l (fileHeaderOf l file) index) := by
  refine .bind_fileSize ?_
  split
  · exact .pure _
  · next placed => exact .bind_copy (.sectionHeader counted placed) (.pure _)

theorem zeroIn?_bounds {left position stop : Nat} (found : zeroIn? file left position = some stop) :
    position ≤ stop ∧ stop < position + left := by
  induction left generalizing position with
  | zero => cases found
  | succ left ih =>
      rw [zeroIn?] at found
      split at found
      · cases found
        omega
      · have := ih found
        omega

theorem nameAt_looks (names : SectionHeader) (position : UInt64) :
    Looks l file (nameAt names position) := by
  refine .bind_fileSize (.ite (fun _ => .pure _) fun before => .bind_read ?_)
  have before := UInt64.le_of_lt (UInt64.not_le.mp before)
  have rest := UInt64.toNat_sub_of_le _ _ before
  have order := UInt64.le_iff_toNat_le.mp before
  have small := file.size.toUInt64.toNat_lt
  split
  · exact .bind (.look (.name (by omega))) fun _ => .pure _
  · next stop found =>
    obtain ⟨behind, below⟩ := zeroIn?_bounds found
    -- The zero byte is part of what is searched.
    have last : (UInt64.ofNat (stop + 1)).toNat = stop + 1 :=
      UInt64.toNat_ofNat_of_lt' (show stop + 1 < 2 ^ 64 by omega)
    have within : names.contents + position ≤ UInt64.ofNat (stop + 1) := by
      rw [UInt64.le_iff_toNat_le, last]
      omega
    have length := UInt64.toNat_sub_of_le _ _ within
    exact .bind (.look (.name (by omega))) fun _ => .bind_read (.pure _)

theorem contentsOf_looks {s : SectionHeader}
    (fits : (!s.isZero && !s.fits file.size.toUInt64) = false) :
    Looks l file (contentsOf s) := by
  refine .ite (fun _ => .pure _) fun some => ?_
  have inside : s.contents ≤ file.size.toUInt64 ∧ s.size ≤ file.size.toUInt64 - s.contents := by
    simpa [some, SectionHeader.fits] using fits
  have rest := UInt64.toNat_sub_of_le _ _ inside.1
  have order := UInt64.le_iff_toNat_le.mp inside.1
  have order' := UInt64.le_iff_toNat_le.mp inside.2
  exact .bind (.look (.contents (by omega))) fun _ => .bind_read (.pure _)

theorem sectionOf_looks {names s : SectionHeader}
    (fits : (!s.isZero && !s.fits file.size.toUInt64) = false) :
    Looks l file (sectionOf names s) :=
  .bind (contentsOf_looks fits) fun _ => .bind (nameAt_looks names _) fun _ => .pure _

theorem sectionsFrom_looks (names : SectionHeader) {count index : Nat}
    (counted : index + count ≤ (fileHeaderOf l file).count.toNat) :
    Looks l file (sectionsFrom l (fileHeaderOf l file) names count index) := by
  induction count generalizing index with
  | zero => exact .pure _
  | succ count ih =>
      have small := (fileHeaderOf l file).count.toNat_lt
      have listed : UInt64.ofNat index < (fileHeaderOf l file).count := by
        rw [UInt64.lt_iff_toNat_lt, UInt64.toNat_ofNat_of_lt' (show index < 2 ^ 64 by omega)]
        omega
      have rest : Looks l file (sectionsFrom l (fileHeaderOf l file) names count (index + 1)) :=
        ih (by omega)
      refine .bind (sectionHeader?_looks (.inr listed)) fun found => ?_
      cases found with
      | none => exact .bind (.log _) fun _ => .pure _
      | some s =>
          refine .bind_fileSize (.ite (fun _ => ?_) fun fits => ?_)
          · exact .bind (nameAt_looks names _) fun _ => .bind (.log _) fun _ => rest
          · exact .bind (sectionOf_looks (Bool.eq_false_iff.mpr fits)) fun _ =>
              .bind rest fun _ => .pure _

theorem ofHeaders_looks (path : Text) : Looks l file (ofHeaders path l) := by
  refine .bind_fileSize (.ite (fun _ => .pure _) fun large => ?_)
  refine .bind_copy (.fileHeader (UInt64.not_lt.mp large)) ?_
  refine .bind (sectionHeader?_looks (.inl rfl)) fun found => ?_
  split
  · exact .bind (.log _) fun _ => .pure _
  · next names _ =>
    refine .bind (sectionsFrom_looks names (Nat.le_of_eq (Nat.zero_add _))) fun sections => ?_
    cases sections with
    | none => exact .pure _
    | some sections => exact .bind (.log _) fun _ => .pure _

theorem parse_checked (path : Text) :
    ∀ s ∈ (parse path file).value.2, Checked (layoutOf file) file s :=
  ofHeaders_looks path [] (fun _ mem => nomatch mem)

/-- A check that passes leaves one way out of the file. -/
theorem Checked.outside_iff {s : Span} (h : Checked l file s) (small : file.size < 2 ^ 64) :
    ¬s.Inside file.size ↔
      s.part = .sectionHeader ∧ 2 ^ 64 ≤ s.start.toNat + s.length.toNat := by
  have size : file.size.toUInt64.toNat = file.size := UInt64.toNat_ofNat_of_lt' small
  unfold Span.Inside
  cases h with
  | fileHeader fits =>
      rw [UInt64.le_iff_toNat_le, size] at fits
      simpa using fits
  | name fits => simpa [size] using fits
  | contents fits => simpa [size] using fits
  | @sectionHeader index start counted placed =>
      -- The check compares the wrapped sum, which is the true one below the top.
      have upto := UInt64.le_iff_toNat_le.mp (Header.position_spec placed).2
      rw [size, UInt64.toNat_add] at upto
      simp only [true_and]
      omega

theorem numberAt_lt (record : Bytes) (slot : Slot) :
    (numberAt record slot).toNat < 256 ^ slot.width := by
  unfold numberAt
  cases read : record.read? slot.offset slot.width with
  | none => exact Nat.pow_pos (by decide)
  | some n => exact Bytes.read?_lt read

theorem fileHeaderOf_lt (l : Layout) (file : Bytes) :
    (fileHeaderOf l file).tableStart.toNat < 256 ^ l.tableStart.width ∧
      (fileHeaderOf l file).entrySize.toNat < 256 ^ l.entrySize.width ∧
      (fileHeaderOf l file).count.toNat < 256 ^ l.count.width ∧
      (fileHeaderOf l file).namesIndex.toNat < 256 ^ l.namesIndex.width :=
  ⟨numberAt_lt _ l.tableStart, numberAt_lt _ l.entrySize, numberAt_lt _ l.count,
    numberAt_lt _ l.namesIndex⟩

/-- Numbers of 32 bits do not make a place that is near the top. -/
theorem Checked.inside_of_narrow {s : Span} (h : Checked narrow file s)
    (small : file.size < 2 ^ 64) : s.Inside file.size := by
  by_contra outside
  obtain ⟨header, wraps⟩ := (h.outside_iff small).mp outside
  cases h with
  | fileHeader => cases header
  | name => cases header
  | contents => cases header
  | @sectionHeader index start counted placed =>
      obtain ⟨table, entry, count, names⟩ := fileHeaderOf_lt narrow file
      -- From here on only the widths of the numbers count, not the bytes they are read from.
      generalize fileHeaderOf narrow file = h at counted placed table entry count names
      simp only [narrow] at table entry count names
      have few : index.toNat < 256 ^ 2 := by
        obtain rfl | below := counted
        · exact names
        · rw [UInt64.lt_iff_toNat_lt] at below
          omega
      have far : index.toNat * h.entrySize.toNat ≤ 256 ^ 2 * 256 ^ 2 :=
        Nat.mul_le_mul (Nat.le_of_lt few) (Nat.le_of_lt entry)
      rw [← (Header.position_spec placed).1, UInt64.toNat_add, UInt64.toNat_mul] at wraps
      simp only [narrow, UInt64.reduceToNat] at wraps
      omega

/-- What is looked at lies inside the file, but for section headers with a place so high that their
end wraps around. Files with addresses of 32 bits have none of these. -/
theorem parse_outside_iff (path : Text) (small : file.size < 2 ^ 64) :
    (∀ s ∈ (parse path file).value.2, ¬s.Inside file.size ↔
      s.part = .sectionHeader ∧ 2 ^ 64 ≤ s.start.toNat + s.length.toNat) ∧
    (file.getD 4 0 ≠ 2 → ∀ s ∈ (parse path file).value.2, s.Inside file.size) := by
  refine ⟨fun s mem => (parse_checked path s mem).outside_iff small, fun class' s mem => ?_⟩
  have check := parse_checked path s mem
  rw [layoutOf, if_neg class'] at check
  exact check.inside_of_narrow small

/-- A file whose first section header begins four bytes before the top of the address space. -/
def straying : Bytes :=
  magic ++ #[2, 1] ++ Array.replicate 34 0 ++
    #[0xFC, 0xFF, 0xFF, 0xFF, 0xFF, 0xFF, 0xFF, 0xFF] ++ Array.replicate 10 0 ++
    #[68, 0, 1, 0, 1, 0] ++ Array.replicate 64 0

theorem parse_outside_straying :
    straying.size < 2 ^ 64 ∧ ∃ s ∈ (parse [] straying).value.2, ¬s.Inside straying.size := by
  have small : straying.size < 2 ^ 64 := by decide +kernel
  have copied : ⟨.sectionHeader, 0xFFFFFFFFFFFFFFFC, 64⟩ ∈ (parse [] straying).value.2 := by
    decide +kernel
  exact ⟨small, _, copied, ((parse_outside_iff [] small).1 _ copied).mpr ⟨rfl, by decide⟩⟩

end ElfFile

end GoInspect
