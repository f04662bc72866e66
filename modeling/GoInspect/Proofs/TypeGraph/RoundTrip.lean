import GoInspect.Proofs.Sorting
import GoInspect.Proofs.GoType.References
import GoInspect.Proofs.TypeGraph.Basic
import GoInspect.Proofs.TypeGraph.Descriptor
import GoInspect.Proofs.TypeGraph.Layout
import GoInspect.TypeGraph.Closure
import GoInspect.Proofs.Traversal

/-!
# Type descriptors are read as they were written
-/

namespace GoInspect

/-- The shape with the fields of a struct in the order of their offsets; fields of one offset keep
their order. -/
def Shape.sorted {ρ : Type} : Shape ρ → Shape ρ
  | .struct fields => .struct (fields.mergeSort fun a b => a.offset ≤ b.offset)
  | shape => shape

/-- A shape and the same shape with the fields of a struct in the order of their offsets, those of
one offset in the order that they had. -/
inductive Shape.StablySorted {ρ : Type} : Shape ρ → Shape ρ → Prop where
  | same {shape : Shape ρ} : (∀ fields, shape ≠ .struct fields) → StablySorted shape shape
  | struct {fields sorted : List (Field ρ)} : sorted.Perm fields →
      sorted.Pairwise (fun a b => a.offset ≤ b.offset) →
      (∀ offset, sorted.filter (fun f => f.offset = offset) =
        fields.filter fun f => f.offset = offset) →
      StablySorted (.struct fields) (.struct sorted)

theorem Shape.stablySorted_sorted {ρ : Type} (shape : Shape ρ) :
    shape.StablySorted shape.sorted := by
  cases shape with
  | struct fields =>
      have perm := List.mergeSort_perm fields fun a b : Field ρ => decide (a.offset ≤ b.offset)
      exact .struct perm (pairwise_sort Field.offset fields) (filter_sort Field.offset fields)
  | _ => exact .same fun _ => nofun

namespace TypeSection

variable {s : TypeSection} {place : Nat}

theorem Proper.size_lt (h : s.Proper) : s.data.size < 2 ^ 64 := by
  have high := s.high.toNat_lt
  rw [h.full]
  omega

theorem Proper.width_toNat (h : s.Proper) :
    s.pointerWidth.toNat = 4 ∨ s.pointerWidth.toNat = 8 := by
  rcases h.width with width | width <;> rw [width]
  · exact .inl rfl
  · exact .inr rfl

theorem Proper.width_pos (h : s.Proper) : 0 < s.pointerWidth.toNat := by
  rcases h.width_toNat with width | width <;> rw [width] <;> decide

theorem toUInt64_width : s.pointerWidth.toUInt64 = UInt64.ofNat s.pointerWidth.toNat := by
  rw [← UInt32.toNat_toUInt64, UInt64.ofNat_toNat]

/-- An address inside the section, and the offset that it has there. -/
theorem Proper.offset_eq (h : s.Proper) {address : UInt64}
    (at' : address.toNat = s.low.toNat + place) (inside : place < s.data.size) :
    s.contains address = true ∧ address - s.low = UInt64.ofNat place := by
  have small := h.size_lt
  have full := h.full
  have start : s.low ≤ address := UInt64.le_iff_toNat_le.mpr (by omega)
  have before : address < s.high := UInt64.lt_iff_toNat_lt.mpr (by omega)
  constructor
  · rw [contains, decide_eq_true start, decide_eq_true before]
    rfl
  · apply UInt64.toNat_inj.mp
    rw [UInt64.toNat_sub_of_le _ _ start, at', Nat.add_sub_cancel_left,
      UInt64.toNat_ofNat_of_lt' (Nat.lt_trans inside small)]

section Words

variable {words : List UInt64}

theorem HasWords.word? (h : s.HasWords place words) (proper : s.Proper) (i : Nat) {w : UInt64}
    (mem : words[i]? = some w) :
    s.word? (UInt64.ofNat (place + i * s.pointerWidth.toNat)) = some w := by
  have stands := h.written.piece (fun w => length_littleEndianBytes _ w.toNat) mem
  have read := stands.read? proper.width_pos (h.fits w (List.mem_of_getElem? mem)) proper.size_lt
  rw [UInt64.ofNat_toNat] at read
  exact read

theorem HasWords.append {rest : List UInt64} (h : s.HasWords place (words ++ rest)) :
    s.HasWords place words ∧ s.HasWords (place + words.length * s.pointerWidth.toNat) rest := by
  obtain ⟨fits, written⟩ := h
  obtain ⟨first, others⟩ := List.forall_mem_append.mp fits
  rw [wordBytes, List.flatMap_append] at written
  obtain ⟨here, there⟩ := written.append
  rw [← wordBytes, length_wordBytes] at there
  exact ⟨⟨first, here⟩, others, there⟩

/-- A word is read at its offset, as the data of kinds count it. -/
theorem HasWords.word_eq (h : s.HasWords place words) (proper : s.Proper) (i : Nat) {w : UInt64}
    (mem : words[i]? = some w) :
    s.word? (UInt64.ofNat place + UInt64.ofNat i * s.pointerWidth.toUInt64) = some w := by
  have read := h.word? proper i mem
  rwa [UInt64.ofNat_add, UInt64.ofNat_mul, ← toUInt64_width] at read

theorem HasWords.first {rest : List UInt64} {w : UInt64} (h : s.HasWords place (w :: rest))
    (proper : s.Proper) : s.word? (UInt64.ofNat place) = some w := by
  have read := h.word? proper 0 rfl
  rwa [Nat.zero_mul, Nat.add_zero] at read

theorem HasWords.second {rest : List UInt64} {v w : UInt64} (h : s.HasWords place (v :: w :: rest))
    (proper : s.Proper) :
    s.word? (UInt64.ofNat place + s.pointerWidth.toUInt64) = some w := by
  have read := h.word? proper 1 rfl
  rwa [Nat.one_mul, UInt64.ofNat_add, ← toUInt64_width] at read

theorem HasWords.words? (h : s.HasWords place words) (proper : s.Proper) :
    s.words? (UInt64.ofNat place) words.length = some words :=
  mapM_range_eq_some fun i _ mem => h.word_eq proper i mem

end Words

section Names

variable {text : Text}

theorem lengthBytes_ne_nil (version : VersionBound) (length : Nat) :
    lengthBytes version length ≠ [] := by
  rw [lengthBytes]
  split
  · rw [Varint.encode, Varint.groups]
    split <;> exact List.cons_ne_nil _ _
  · exact List.cons_ne_nil _ _

theorem HasName.le_size (h : s.HasName place text) :
    place + 1 + (lengthBytes s.version text.length).length + text.length ≤ s.data.size := by
  have inside := h.written.le_size (List.append_ne_nil_of_left_ne_nil (lengthBytes_ne_nil _ _) _)
  rwa [List.length_append, ← Nat.add_assoc] at inside

theorem HasName.lt_size (h : s.HasName place text) : place + 1 < s.data.size := by
  have inside := h.le_size
  have some := List.length_pos_iff.mpr (lengthBytes_ne_nil s.version text.length)
  omega

theorem HasName.toNat_place (h : s.HasName place text) (proper : s.Proper) :
    (UInt64.ofNat (place + 1)).toNat = place + 1 :=
  UInt64.toNat_ofNat_of_lt' (Nat.lt_trans h.lt_size proper.size_lt)

theorem HasName.varintLength? (h : s.HasName place text) (proper : s.Proper)
    (varint : 17 ≤ s.version.min) :
    s.varintLength? (UInt64.ofNat (place + 1)) =
      some (text.length, place + 1 + (lengthBytes s.version text.length).length) := by
  have short := h.short
  have length := h.written.append.1
  rw [lengthBytes, if_pos varint] at length ⊢
  rw [if_pos varint] at short
  rw [TypeSection.varintLength?, h.toNat_place proper, Varint.read?_encode length, Option.map_some]
  dsimp only
  rw [UInt32.toNat_ofNat_of_lt' short]

theorem HasName.shortLength? (h : s.HasName place text) (proper : s.Proper)
    (short : ¬ 17 ≤ s.version.min) :
    s.shortLength? (UInt64.ofNat (place + 1)) =
      some (text.length, place + 1 + (lengthBytes s.version text.length).length) := by
  have below := h.short
  have length := h.written.append.1
  rw [lengthBytes, if_neg short] at length ⊢
  rw [if_neg short] at below
  obtain ⟨high, low⟩ := length.append
  have highRead := high.read? (by decide) (by omega) proper.size_lt
  have lowRead := low.read? (by decide) (by omega) proper.size_lt
  rw [length_littleEndianBytes, UInt64.ofNat_add (place + 1)] at lowRead
  have byteValue {n : Nat} (byte : n < 256) : (UInt64.ofNat n).toNat = n :=
    UInt64.toNat_ofNat_of_lt' (Nat.lt_trans byte (by decide))
  have whole : text.length / 256 * 256 + text.length % 256 = text.length := by omega
  change (s.data.read? (UInt64.ofNat (place + 1)) 1).bind (fun high =>
    (s.data.read? (UInt64.ofNat (place + 1) + 1) 1).bind fun low =>
      some (high.toNat * 256 + low.toNat, (UInt64.ofNat (place + 1)).toNat + 2)) = _
  rw [highRead, Option.bind_some]
  change (s.data.read? (UInt64.ofNat (place + 1) + UInt64.ofNat 1) 1).bind _ = _
  rw [lowRead, Option.bind_some, byteValue (by omega), byteValue (by omega), whole,
    h.toNat_place proper]
  rfl

theorem HasName.nameText (h : s.HasName place text) (formed : Utf8.WellFormed text) :
    s.nameText (place + 1 + (lengthBytes s.version text.length).length) text.length = text := by
  have stands := h.written.append.2
  rw [TypeSection.nameText, Bytes.toList_slice, stands.take, formed.lenient]

theorem HasName.memberName? (h : s.HasName place text) (proper : s.Proper)
    (formed : Utf8.WellFormed text) : s.memberName? (UInt64.ofNat (place + 1)) = some text := by
  have inside := h.le_size
  have start : place + 1 + (lengthBytes s.version text.length).length ≤ s.data.size := by omega
  have length : (if s.version.min ≤ 16 then s.shortLength? (UInt64.ofNat (place + 1))
      else s.varintLength? (UInt64.ofNat (place + 1))) =
        some (text.length, place + 1 + (lengthBytes s.version text.length).length) := by
    by_cases old : s.version.min ≤ 16
    · rw [if_pos old]
      refine h.shortLength? proper ?_
      rw [UInt32.le_iff_toNat_le] at old ⊢
      exact Nat.not_le.mpr (Nat.lt_of_le_of_lt old (by decide))
    · rw [if_neg old]
      refine h.varintLength? proper ?_
      rw [UInt32.le_iff_toNat_le] at old ⊢
      exact Nat.lt_of_not_le old
  rw [TypeSection.memberName?, length]
  simp only [Option.bind_some, start, if_true, h.nameText formed]

theorem storedName_spec {header : TypeHeader} {extra : CodePoint}
    (formed : Utf8.WellFormed header.name) (scalar : extra.isScalar = true) :
    Utf8.WellFormed (storedName header extra) ∧
      (if header.tflag &&& 2 = 0 then storedName header extra
        else Utf8.dropFirst (storedName header extra)) = header.name := by
  rw [storedName]
  split
  · exact ⟨formed, rfl⟩
  · exact ⟨formed.cons scalar, formed.dropFirst extra⟩

theorem HasName.typeName? {header : TypeHeader} {extra : CodePoint}
    (h : s.HasName place (storedName header extra)) (proper : s.Proper)
    (formed : Utf8.WellFormed header.name) (scalar : extra.isScalar = true) :
    s.typeName? (UInt64.ofNat (place + 1)) header.tflag = some header.name := by
  have inside := h.le_size
  have before : ¬ s.high ≤ s.low + UInt64.ofNat (place + 1) := by
    have lt := h.lt_size
    have full := proper.full
    have high := s.high.toNat_lt
    rw [UInt64.le_iff_toNat_le, UInt64.toNat_add, h.toNat_place proper]
    omega
  have length : (if s.version.varintNames then s.varintLength? (UInt64.ofNat (place + 1))
      else if s.version.max ≤ 16 then s.shortLength? (UInt64.ofNat (place + 1)) else none) =
        some ((storedName header extra).length,
          place + 1 + (lengthBytes s.version (storedName header extra).length).length) := by
    have releases : s.version.varintNames = true ↔ 17 ≤ s.version.min := decide_eq_true_iff
    by_cases varint : 17 ≤ s.version.min
    · rw [if_pos (releases.mpr varint)]
      exact h.varintLength? proper varint
    · have old : s.version.max ≤ 16 := proper.version.resolve_left varint
      rw [if_neg (mt releases.mp varint), if_pos old]
      exact h.shortLength? proper varint
  obtain ⟨stored, dropped⟩ := storedName_spec formed scalar
  rw [TypeSection.typeName?, if_neg before]
  dsimp only
  rw [length]
  simp only [Option.bind_some, inside, if_true, h.nameText stored, dropped]

end Names

section Members

theorem HasMethod.inside {m : Method UInt64} (h : s.HasMethod place m) :
    place + 8 ≤ s.data.size := by
  obtain ⟨name, type, _, _, stands, _⟩ := h
  exact stands.le_size (List.cons_ne_nil _ _)

theorem HasMethod.method? {m : Method UInt64} {address : UInt64} (h : s.HasMethod place m)
    (proper : s.Proper) (at' : address.toNat = s.low.toNat + place) :
    s.method? address = some m := by
  have inside := h.inside
  obtain ⟨name, type, nameFits, typeFits, stands, named, formed, typed⟩ := h
  obtain ⟨member, offset⟩ := proper.offset_eq at' (by omega)
  obtain ⟨first, second⟩ := stands.append
  have nameRead := first.read? (by decide) nameFits proper.size_lt
  have typeRead := second.read? (by decide) typeFits proper.size_lt
  have nameText := named.memberName? proper formed
  rw [length_littleEndianBytes, UInt64.ofNat_add] at typeRead
  rw [UInt64.ofNat_add] at nameText
  rw [TypeSection.method?, if_pos member, offset]
  change (s.data.read? (UInt64.ofNat place) 4).bind (fun name =>
    (s.data.read? (UInt64.ofNat place + UInt64.ofNat 4) 4).bind fun type =>
      some (Method.mk ((s.memberName? (name + UInt64.ofNat 1)).getD []) (s.low + type))) = some m
  rw [nameRead, Option.bind_some, typeRead, Option.bind_some, nameText, ← typed]
  rfl

theorem HasField.inside {f : Field UInt64} (h : s.HasField place f) (proper : s.Proper) :
    place + 3 * s.pointerWidth.toNat ≤ s.data.size := by
  obtain ⟨name, stored, words, _⟩ := h
  have length := s.length_wordBytes [s.low + UInt64.ofNat name, f.type, stored]
  have width := proper.width_pos
  change _ = 3 * s.pointerWidth.toNat at length
  have inside := words.written.le_size (List.ne_nil_of_length_pos (by omega))
  rwa [length] at inside

theorem HasField.field? {f : Field UInt64} {address : UInt64} (h : s.HasField place f)
    (proper : s.Proper) (at' : address.toNat = s.low.toNat + place) :
    s.field? address = some f := by
  have inside := h.inside proper
  have width := proper.width_pos
  obtain ⟨name, stored, words, named, formed, shifted⟩ := h
  obtain ⟨member, offset⟩ := proper.offset_eq at' (by omega)
  have nameWord := words.first proper
  have typeWord := words.second proper
  have offsetWord := words.word_eq proper 2 rfl
  have nameText := named.memberName? proper formed
  rw [UInt64.ofNat_add] at nameText
  have releases : s.version.shiftedFieldOffsets = true ↔
      9 ≤ s.version.min ∧ s.version.max ≤ 18 := by
    rw [VersionBound.shiftedFieldOffsets, Bool.and_eq_true, decide_eq_true_iff, decide_eq_true_iff]
  have unshifted : (if s.version.shiftedFieldOffsets then stored >>> 1 else stored) = f.offset := by
    simp only [releases]
    split
    · next old =>
      rw [if_pos old] at shifted
      apply UInt64.toNat_inj.mp
      rw [UInt64.toNat_shiftRight, ← shifted]
      rfl
    · next new => rwa [if_neg new] at shifted
  rw [TypeSection.field?, if_pos member, offset]
  change (s.word? (UInt64.ofNat place)).bind (fun name =>
    (s.word? (UInt64.ofNat place + s.pointerWidth.toUInt64)).bind fun type =>
      (s.word? (UInt64.ofNat place + UInt64.ofNat 2 * s.pointerWidth.toUInt64)).bind fun offset =>
        some (Field.mk ((s.memberName? (name - s.low + UInt64.ofNat 1)).getD []) type
          (if s.version.shiftedFieldOffsets then offset >>> 1 else offset))) = some f
  rw [nameWord, Option.bind_some, typeWord, Option.bind_some, offsetWord, Option.bind_some,
    unshifted]
  have relative : s.low + UInt64.ofNat name - s.low = UInt64.ofNat name := by
    rw [UInt64.add_comm, UInt64.add_sub_cancel]
  rw [relative, nameText]
  rfl

section Lists

variable {α : Type} {record : Nat → α → Prop} {start : UInt64} {width : Nat} {l : List α}

theorem HasMembers.length_le (h : s.HasMembers record start width l) (positive : 0 < width)
    (inside : ∀ place a, record place a → place + width ≤ s.data.size) :
    l.length ≤ s.data.size / width := by
  rw [Nat.le_div_iff_mul_le positive]
  cases l with
  | nil => exact (Nat.zero_mul width).symm ▸ Nat.zero_le _
  | cons a rest =>
      obtain ⟨first, firstAt, _⟩ := h 0 a rfl
      obtain ⟨last, lastAt, written⟩ := h rest.length _ (List.getElem?_eq_getElem (by simp))
      have fit := inside last _ written
      rw [List.length_cons, Nat.add_mul, Nat.one_mul]
      omega

theorem HasMembers.members (h : s.HasMembers record start width l) (proper : s.Proper)
    {member? : UInt64 → Option α} (inside : ∀ place a, record place a → place < s.data.size)
    (read : ∀ place a address, record place a → address.toNat = s.low.toNat + place →
      member? address = some a) :
    TypeSection.members member? start (UInt64.ofNat width) l.length = l := by
  refine filterMap_range_eq fun i a mem => ?_
  obtain ⟨place, at', written⟩ := h i a mem
  refine read place a _ written ?_
  have fit := inside place a written
  have full := proper.full
  have high := s.high.toNat_lt
  rw [← UInt64.ofNat_mul, UInt64.toNat_add, UInt64.toNat_ofNat']
  omega

end Lists

end Members

section Kinds

theorem toNat_ofNat_of_le_size {n : Nat} (proper : s.Proper) (le : n ≤ s.data.size) :
    (UInt64.ofNat n).toNat = n :=
  UInt64.toNat_ofNat_of_lt' (Nat.lt_of_le_of_lt le proper.size_lt)

/-- Where the list of records is, as interfaces and structs tell it. -/
theorem list_read {start : UInt64} {count : Nat} (proper : s.Proper)
    (words : s.HasWords (place + s.pointerWidth.toNat) [start, UInt64.ofNat count]) :
    s.word? (UInt64.ofNat place + s.pointerWidth.toUInt64) = some start ∧
      s.word? (UInt64.ofNat place + 2 * s.pointerWidth.toUInt64) = some (UInt64.ofNat count) := by
  have startWord := words.first proper
  have countWord := words.second proper
  rw [UInt64.ofNat_add, ← toUInt64_width] at startWord countWord
  rw [UInt64.add_assoc] at countWord
  have two : (2 : UInt64) * s.pointerWidth.toUInt64 =
      s.pointerWidth.toUInt64 + s.pointerWidth.toUInt64 := UInt64.two_mul
  rw [two]
  exact ⟨startWord, countWord⟩

theorem interface?_written {methods : List (Method UInt64)} {start : UInt64} (proper : s.Proper)
    (words : s.HasWords (place + s.pointerWidth.toNat) [start, UInt64.ofNat methods.length])
    (written : s.HasMembers s.HasMethod start 8 methods) :
    s.interface? (UInt64.ofNat place) = some (.interface methods) := by
  obtain ⟨startWord, countWord⟩ := list_read proper words
  have few := written.length_le (by decide) fun place a h => h.inside
  have count := toNat_ofNat_of_le_size proper (few.trans (Nat.div_le_self _ _))
  have read : members s.method? start 8 methods.length = methods := by
    refine written.members proper (fun place a h => ?_) fun place a address h => h.method? proper
    exact Nat.lt_of_lt_of_le (Nat.lt_add_of_pos_right (by decide)) h.inside
  rw [interface?, startWord, Option.bind_eq_bind, Option.bind_some, countWord, Option.bind_some,
    count, if_neg (Nat.not_lt.mpr few), read]
  rfl

theorem struct?_written {fields : List (Field UInt64)} {start : UInt64} (proper : s.Proper)
    (words : s.HasWords (place + s.pointerWidth.toNat) [start, UInt64.ofNat fields.length])
    (written : s.HasMembers s.HasField start (3 * s.pointerWidth.toNat) fields) :
    s.struct? (UInt64.ofNat place) = some (Shape.sorted (.struct fields)) := by
  obtain ⟨startWord, countWord⟩ := list_read proper words
  have positive : 0 < 3 * s.pointerWidth.toNat := Nat.mul_pos (by decide) proper.width_pos
  have few := written.length_le positive fun place a h => h.inside proper
  have count := toNat_ofNat_of_le_size proper (few.trans (Nat.div_le_self _ _))
  have read : members s.field? start (UInt64.ofNat (3 * s.pointerWidth.toNat)) fields.length =
      fields := by
    refine written.members proper (fun place a h => ?_) fun place a address h => h.field? proper
    exact Nat.lt_of_lt_of_le (Nat.lt_add_of_pos_right positive) (h.inside proper)
  have width : (3 * s.pointerWidth).toNat = 3 * s.pointerWidth.toNat := by
    rcases proper.width with width | width <;> rw [width] <;> rfl
  have same : (3 * s.pointerWidth).toUInt64 = UInt64.ofNat (3 * s.pointerWidth.toNat) := by
    rw [← width, ← UInt32.toNat_toUInt64, UInt64.ofNat_toNat]
  rw [← width] at few
  rw [struct?, startWord, Option.bind_eq_bind, Option.bind_some, countWord, Option.bind_some]
  dsimp only
  rw [count, if_neg (Nat.not_lt.mpr few), same, read]
  rfl

/-- The number of results and the flag above it come apart again. -/
theorem outputCount_split {count : Nat} (few : count < 2 ^ 15) (variadic : Bool) :
    (UInt64.ofNat (count + if variadic then 2 ^ 15 else 0) &&& 0x7FFF).toNat = count ∧
      (UInt64.ofNat (count + if variadic then 2 ^ 15 else 0) &&& 0x8000 != 0) = variadic := by
  have whole : (UInt64.ofNat (count + if variadic then 2 ^ 15 else 0)).toNat =
      count + if variadic then 2 ^ 15 else 0 := by
    refine UInt64.toNat_ofNat_of_lt' (Nat.lt_of_lt_of_le (m := 2 ^ 16) ?_ (by decide))
    split <;> omega
  constructor
  · rw [UInt64.toNat_and, whole]
    refine (Nat.and_two_pow_sub_one_eq_mod _ 15).trans ?_
    split <;> omega
  · have bit : (count + if variadic then 2 ^ 15 else 0).testBit 15 = variadic := by
      have low := Nat.testBit_lt_two_pow few
      cases variadic with
      | false => exact low
      | true => rw [if_pos rfl, Nat.add_comm, Nat.testBit_two_pow_add_eq, low, Bool.not_false]
    have masked : (UInt64.ofNat (count + if variadic then 2 ^ 15 else 0) &&& 0x8000).toNat =
        variadic.toNat * 2 ^ 15 := by
      rw [UInt64.toNat_and, whole]
      refine (Nat.and_two_pow _ 15).trans ?_
      rw [bit]
    cases variadic with
    | false => exact bne_eq_false_iff_eq.mpr (UInt64.toNat_inj.mp masked)
    | true =>
        refine bne_iff_ne.mpr fun zero => ?_
        rw [zero] at masked
        cases masked

theorem func?_written {tflag : UInt8} {inputs outputs : List UInt64} {variadic : Bool}
    (proper : s.Proper) (h : s.HasShape tflag place (.func inputs outputs variadic)) :
    s.func? tflag (UInt64.ofNat place) = some (.func inputs outputs variadic) := by
  obtain ⟨fewInputs, fewOutputs, counts, words⟩ := h
  obtain ⟨inputBytes, outputBytes⟩ := counts.append
  have inputRead := inputBytes.read? (by decide) fewInputs proper.size_lt
  have outputRead := outputBytes.read? (by decide) (by split <;> omega) proper.size_lt
  rw [length_littleEndianBytes, UInt64.ofNat_add place] at outputRead
  obtain ⟨count, flag⟩ := outputCount_split fewOutputs variadic
  obtain ⟨ins, outs⟩ := words.append
  have start : UInt64.ofNat place + s.pointerWidth.toUInt64 + (if tflag &&& 1 = 0 then 0 else 16) =
      UInt64.ofNat (place + s.pointerWidth.toNat + if tflag &&& 1 = 0 then 0 else 16) := by
    rw [UInt64.ofNat_add, UInt64.ofNat_add, toUInt64_width]
    split <;> rfl
  have inputCount : (UInt64.ofNat inputs.length).toNat = inputs.length :=
    UInt64.toNat_ofNat_of_lt' (Nat.lt_trans fewInputs (by decide))
  have outputRead' : s.read? (UInt64.ofNat place + 2) 2 = _ := outputRead
  have inputsRead := ins.words? proper
  have outputsRead := outs.words? proper
  rw [UInt64.ofNat_add, UInt64.ofNat_mul, ← toUInt64_width] at outputsRead
  rw [func?, read?, inputRead, Option.bind_eq_bind, Option.bind_some, outputRead', Option.bind_some]
  dsimp only
  rw [start, inputCount, inputsRead, Option.bind_eq_bind, Option.bind_some, count, outputsRead,
    Option.bind_some, flag]
  rfl

theorem shape?_written {tflag : UInt8} {shape : Shape UInt64} (proper : s.Proper)
    (h : s.HasShape tflag place shape) :
    s.shape? shape.kind tflag (UInt64.ofNat place) = some shape.sorted := by
  have zero {words : List UInt64} {w : UInt64} (written : s.HasWords place words)
      (mem : words[0]? = some w) :
      s.word? (UInt64.ofNat place + 0 * s.pointerWidth.toUInt64) = some w :=
    written.word_eq proper 0 mem
  have one {words : List UInt64} {w : UInt64} (written : s.HasWords place words)
      (mem : words[1]? = some w) :
      s.word? (UInt64.ofNat place + 1 * s.pointerWidth.toUInt64) = some w :=
    written.word_eq proper 1 mem
  have two {words : List UInt64} {w : UInt64} (written : s.HasWords place words)
      (mem : words[2]? = some w) :
      s.word? (UInt64.ofNat place + 2 * s.pointerWidth.toUInt64) = some w :=
    written.word_eq proper 2 mem
  cases shape with
  | basic kind => cases kind <;> rfl
  | array elem sliceType length | map key value bucket =>
      rw [Shape.kind, shape?]
      simp only [zero h rfl, one h rfl, two h rfl]
      rfl
  | chan elem direction =>
      rw [Shape.kind, shape?]
      simp only [zero h rfl, one h rfl]
      rfl
  | pointer elem | slice elem =>
      rw [Shape.kind, shape?]
      simp only [zero h rfl]
      rfl
  | func inputs outputs variadic => exact func?_written proper h
  | interface methods =>
      obtain ⟨start, words, written⟩ := h
      exact interface?_written proper words written
  | struct fields =>
      obtain ⟨start, words, written⟩ := h
      exact struct?_written proper words written

end Kinds

section Header

variable {d : Descriptor}

theorem headerField_eq (proper : s.Proper) {pointers bytes : UInt32} (few : pointers.toNat ≤ 4)
    (short : bytes.toNat ≤ 16) :
    s.headerField (UInt64.ofNat place) pointers bytes =
      UInt64.ofNat (place + (pointers.toNat * s.pointerWidth.toNat + bytes.toNat)) := by
  rw [headerField, UInt64.ofNat_add, ← fieldDistance_toNat proper.width few short,
    UInt64.ofNat_toNat]

/-- Every number of a header is read where those before it end. -/
theorem headerNumber_read {numbers : List (Nat × Nat)} (proper : s.Proper)
    (fits : ∀ x ∈ numbers, x.2 < 256 ^ x.1)
    (holds : s.data.Holds place (numbers.flatMap fun x => littleEndianBytes x.1 x.2)) (i : Nat)
    {width n : Nat} (mem : numbers[i]? = some (width, n)) (positive : 0 < width) :
    s.read? (UInt64.ofNat (place + ((numbers.take i).map Prod.fst).sum)) width =
      some (UInt64.ofNat n) := by
  have stands := holds.part mem
  have read := stands.read? positive (fits _ (List.mem_of_getElem? mem)) proper.size_lt
  rw [List.length_flatMap] at read
  simp only [length_littleEndianBytes] at read
  exact read

theorem rawHeader?_written {equal gcData name : Nat} (proper : s.Proper)
    (fits : ∀ x ∈ s.headerNumbers d equal gcData name, x.2 < 256 ^ x.1)
    (holds : s.data.Holds place
      ((s.headerNumbers d equal gcData name).flatMap fun x => littleEndianBytes x.1 x.2)) :
    s.rawHeader? (UInt64.ofNat place) = some
      { size := d.header.size, ptrBytes := d.header.ptrBytes, hash := d.header.hash
        tflag := d.header.tflag, align := d.header.align, fieldAlign := d.header.fieldAlign
        kindByte := d.header.kindByte, nameOffset := UInt64.ofNat name
        ptrToThis := d.ptrToThis } := by
  have number (i : Nat) {width n : Nat} {pointers bytes : UInt32}
      (mem : (s.headerNumbers d equal gcData name)[i]? = some (width, n)) (positive : 0 < width)
      (few : pointers.toNat ≤ 4) (short : bytes.toNat ≤ 16)
      (sum : (((s.headerNumbers d equal gcData name).take i).map Prod.fst).sum =
        pointers.toNat * s.pointerWidth.toNat + bytes.toNat) :
      s.read? (s.headerField (UInt64.ofNat place) pointers bytes) width =
        some (UInt64.ofNat n) := by
    rw [headerField_eq proper few short, ← sum]
    exact headerNumber_read proper fits holds i mem positive
  have size : s.word? (UInt64.ofNat place) = _ :=
    headerNumber_read proper fits holds 0 rfl proper.width_pos
  have ptrBytes : s.word? (s.headerField (UInt64.ofNat place) 1 0) = _ :=
    number 1 rfl proper.width_pos (by decide) (by decide) (by simp [headerNumbers])
  have hash : s.read? (s.headerField (UInt64.ofNat place) 2 0) 4 = _ :=
    number 2 rfl (by decide) (by decide) (by decide) (by simp [headerNumbers]; omega)
  have tflag : s.read? (s.headerField (UInt64.ofNat place) 2 4) 1 = _ :=
    number 3 rfl (by decide) (by decide) (by decide) (by simp [headerNumbers]; omega)
  have align : s.read? (s.headerField (UInt64.ofNat place) 2 5) 1 = _ :=
    number 4 rfl (by decide) (by decide) (by decide) (by simp [headerNumbers]; omega)
  have fieldAlign : s.read? (s.headerField (UInt64.ofNat place) 2 6) 1 = _ :=
    number 5 rfl (by decide) (by decide) (by decide) (by simp [headerNumbers]; omega)
  have kindByte : s.read? (s.headerField (UInt64.ofNat place) 2 7) 1 = _ :=
    number 6 rfl (by decide) (by decide) (by decide) (by simp [headerNumbers]; omega)
  have nameOffset : s.read? (s.headerField (UInt64.ofNat place) 4 8) 4 = _ :=
    number 9 rfl (by decide) (by decide) (by decide) (by simp [headerNumbers]; omega)
  have ptrToThis : s.read? (s.headerField (UInt64.ofNat place) 4 12) 4 = _ :=
    number 10 rfl (by decide) (by decide) (by decide) (by simp [headerNumbers]; omega)
  simp only [rawHeader?, size, ptrBytes, hash, tflag, align, fieldAlign, kindByte, nameOffset,
    ptrToThis, Option.bind_eq_bind, Option.bind_some, Option.pure_def, UInt64.ofNat_toNat]
  simp

theorem kindNumber_eq {ρ : Type} (shape : Shape ρ) : kindNumber shape = shape.kind.index := by
  cases shape with
  | basic kind => cases kind <;> rfl
  | _ => rfl

theorem Written.inside (h : s.Written place d) :
    place + (4 * s.pointerWidth.toNat + 16) ≤ s.data.size := by
  obtain ⟨equal, gcData, name, extra, _, _, _, holds⟩ := h.header
  have length : ((s.headerNumbers d equal gcData name).flatMap fun x =>
      littleEndianBytes x.1 x.2).length = 4 * s.pointerWidth.toNat + 16 := by
    simp [headerNumbers]
    omega
  have inside := holds.le_size (List.ne_nil_of_length_pos (by omega))
  rwa [length] at inside

/-- What is written at a place is decoded there, a struct with its fields in order. -/
theorem decode_eq_of_written (proper : s.Proper) (h : s.Written place d) :
    s.decode (UInt64.ofNat place) = .ok { d with shape := d.shape.sorted } := by
  have inside := h.inside
  obtain ⟨⟨equal, gcData, name, extra, named, scalar, fits, holds⟩, formed, kind, shaped⟩ := h
  have raw := rawHeader?_written proper fits holds
  have nameRead := named.typeName? proper formed scalar
  have shapeRead := shape?_written proper shaped
  have known := TypeKind.ofIndex?_eq_some_iff.mpr ((kindNumber_eq d.shape).symm.trans kind)
  have place' : (UInt64.ofNat place).toNat = place := toNat_ofNat_of_le_size proper (by omega)
  have fit : s.runsPast (UInt64.ofNat place) = false :=
    runsPast_eq_false proper.width proper.full (by rwa [place'])
  have width : s.headerWidth = UInt64.ofNat (4 * s.pointerWidth.toNat + 16) := by
    rw [← headerWidth_toNat proper.width, UInt64.ofNat_toNat]
  have nameRead' : s.typeName? (UInt64.ofNat name + 1) d.header.tflag = some d.header.name := by
    rw [UInt64.ofNat_add] at nameRead
    exact nameRead
  rw [UInt64.ofNat_add, ← width] at shapeRead
  rw [decode]
  simp only [fit, raw, nameRead', RawHeader.kindNumber, known, shapeRead, Bool.false_eq_true,
    if_false]
  rfl

end Header

section Main

variable {d : Descriptor}

theorem Proper.contains_eq (proper : s.Proper) (a : UInt64) :
    s.contains a = decide (s.low.toNat ≤ a.toNat ∧ a.toNat < s.low.toNat + s.data.size) := by
  rw [contains, proper.full, Bool.eq_iff_iff, Bool.and_eq_true, decide_eq_true_iff,
    decide_eq_true_iff, decide_eq_true_iff, UInt64.le_iff_toNat_le, UInt64.lt_iff_toNat_lt]
  omega

/-- The offsets that a descriptor leads to, in natural numbers. -/
theorem successors_toNat (proper : s.Proper) {children : List UInt64}
    (all : d.shape.Children children) :
    (s.successors d).map UInt64.toNat =
      (children.filter fun a => s.low.toNat ≤ a.toNat ∧
          a.toNat < s.low.toNat + s.data.size).map (fun a => a.toNat - s.low.toNat) ++
        if d.ptrToThis = 0 ∨ d.ptrToThis = 0xFFFFFFFF then [] else [d.ptrToThis.toNat] := by
  obtain rfl := Shape.children_iff.mp all
  have relative : ∀ a ∈ d.shape.refs.filter s.contains,
      (a - s.low).toNat = a.toNat - s.low.toNat := by
    intro a mem
    have member := (List.mem_filter.mp mem).2
    rw [proper.contains_eq, decide_eq_true_iff] at member
    exact UInt64.toNat_sub_of_le _ _ (UInt64.le_iff_toNat_le.mpr member.1)
  have same : s.contains = fun a =>
      decide (s.low.toNat ≤ a.toNat ∧ a.toNat < s.low.toNat + s.data.size) :=
    funext proper.contains_eq
  rw [successors, List.map_append, List.map_map, Function.comp_def, List.map_congr_left relative,
    same, Descriptor.pointerOffsets]
  split <;> rfl

/-- A registration adds one node, at the place of the descriptor. -/
theorem find?_register (proper : s.Proper) (inside : place ≤ s.data.size) (g : TypeGraph)
    (address : UInt64) :
    (s.register g (UInt64.ofNat place) d).find? address =
      if address.toNat = s.low.toNat + place then some (d.type s.version)
      else g.find? address := by
  have full := proper.full
  have low := s.low.toNat_lt
  have high := s.high.toNat_lt
  have whole : (s.low + UInt64.ofNat place).toNat = s.low.toNat + place := by
    rw [UInt64.toNat_add, toNat_ofNat_of_le_size proper inside]
    omega
  have same : s.low + UInt64.ofNat place = address ↔ address.toNat = s.low.toNat + place := by
    rw [← UInt64.toNat_inj, whole, eq_comm]
  rw [register, TypeGraph.find?_insert]
  simp only [same]

/-- A type that is written in a section is registered at its address as it was written, with the
fields of a struct in the order of their offsets and references that are not resolved yet, and leads
to the types that it refers to in the section and to the type of pointers to it. -/
theorem registers_written (proper : s.Proper) (h : s.Written place d) (g : TypeGraph) :
    let found : Descriptor := { d with shape := d.shape.sorted }
    s.decode (UInt64.ofNat place) = .ok found ∧
      d.shape.StablySorted d.shape.sorted ∧
      kindNumber d.shape.sorted = d.header.kindByte.toNat % 32 ∧
      (∃ node : GoType, node.header = d.header ∧ node.version = s.version ∧
        d.shape.sorted.Pointwise (fun a r => r = ⟨a, none⟩) node.shape ∧
        ∀ address, (s.register g (UInt64.ofNat place) found).find? address =
          if address.toNat = s.low.toNat + place then some node else g.find? address) ∧
      ∃ children, d.shape.sorted.Children children ∧
        (s.successors found).map UInt64.toNat =
          (children.filter fun a => s.low.toNat ≤ a.toNat ∧
              a.toNat < s.low.toNat + s.data.size).map (fun a => a.toNat - s.low.toNat) ++
            if d.ptrToThis = 0 ∨ d.ptrToThis = 0xFFFFFFFF then [] else [d.ptrToThis.toNat] := by
  intro found
  have all : d.shape.sorted.Children d.shape.sorted.refs := Shape.children_iff.mpr rfl
  refine ⟨decode_eq_of_written proper h, d.shape.stablySorted_sorted, ?_,
    ⟨found.type s.version, rfl, rfl, ?_, find?_register proper ?_ g⟩,
    d.shape.sorted.refs, all, successors_toNat proper all⟩
  · rw [← h.kind]
    cases d.shape <;> rfl
  · refine Shape.pointwise_mapRefs ?_ d.shape.sorted
    intro address
    rfl
  · have inside := h.inside
    omega

/-- The struct `main.T` for pointers of four bytes, of a release with short names and shifted
offsets. Its second field is embedded and stands first. -/
def embedding : TypeSection where
  low := 0x1000
  high := 0x1058
  version := ⟨16, 16⟩
  pointerWidth := 4
  data := #[
    -- The names `*main.T`, `b` and `a`
    0, 0, 7, 42, 109, 97, 105, 110, 46, 84, 0, 0, 1, 98, 0, 0, 1, 97, 0, 0,
    -- The two fields
    10, 16, 0, 0, 0, 32, 0, 0, 17, 0, 0, 0, 14, 16, 0, 0, 44, 16, 0, 0, 0, 0, 0, 0,
    -- The header
    16, 0, 0, 0, 4, 0, 0, 0, 52, 18, 0, 0, 2, 4, 4, 57,
    0, 0, 0, 0, 0, 0, 0, 0, 0, 0, 0, 0, 100, 0, 0, 0,
    -- The package, and where the fields are
    0, 0, 0, 0, 20, 16, 0, 0, 2, 0, 0, 0]

def embeddingStruct : Descriptor where
  header :=
    { size := 16, ptrBytes := 4, hash := 0x1234, tflag := 2, align := 4, fieldAlign := 4
      kindByte := 57, name := utf8 "main.T" }
  shape := .struct [⟨utf8 "b", 0x2000, 8⟩, ⟨utf8 "a", 0x102C, 0⟩]
  ptrToThis := 100

theorem embedding_proper : embedding.Proper := ⟨.inl rfl, rfl, .inr (by decide)⟩

theorem embedding_written : embedding.Written 44 embeddingStruct where
  header := ⟨0, 0, 0, 42, ⟨by decide, by decide⟩, by decide, by decide, by decide⟩
  name := ⟨[109, 97, 105, 110, 46, 84],
    by simp [CodePoint.isScalar, CodePoint.isSurrogate], by decide⟩
  kind := by decide
  shape := by
    refine ⟨0x1014, ⟨by simp [embedding], by decide⟩, ?_⟩
    rintro (_ | _ | i) f mem
    · cases mem
      exact ⟨20, by decide, 10, 17, ⟨by simp [embedding], by decide⟩, ⟨by decide, by decide⟩,
        ⟨[98], by simp [CodePoint.isScalar, CodePoint.isSurrogate], by decide⟩, by decide⟩
    · cases mem
      exact ⟨32, by decide, 14, 0, ⟨by simp [embedding], by decide⟩, ⟨by decide, by decide⟩,
        ⟨[97], by simp [CodePoint.isScalar, CodePoint.isSurrogate], by decide⟩, by decide⟩
    · cases mem

/-- The fields are put in order, and of the two types that they refer to only that of the first lies
in the section. -/
theorem registers_written_embedding :
    let found : TypeSection.Descriptor := { embeddingStruct with
      shape := .struct [⟨utf8 "a", 0x102C, 0⟩, ⟨utf8 "b", 0x2000, 8⟩] }
    embedding.Proper ∧ embedding.Written 44 embeddingStruct ∧ embedding.decode 44 = .ok found ∧
      (embedding.successors found).map UInt64.toNat = [44, 100] := by
  refine ⟨embedding_proper, embedding_written, ?_⟩
  have sorted : embeddingStruct.shape.sorted =
      .struct [⟨utf8 "a", 0x102C, 0⟩, ⟨utf8 "b", 0x2000, 8⟩] := by
    simp [embeddingStruct, Shape.sorted, List.mergeSort]
  obtain ⟨decoded, -, -, -, children, all, leads⟩ :=
    registers_written embedding_proper embedding_written .empty
  rw [sorted] at decoded all leads
  refine ⟨decoded, leads.trans ?_⟩
  cases all
  decide

end Main

end TypeSection

end GoInspect
