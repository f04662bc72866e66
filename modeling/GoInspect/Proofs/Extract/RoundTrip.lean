import GoInspect.Proofs.Extract.Conformance
import GoInspect.Proofs.GoType.Plain

/-!
# Plain objects are read as they are stored

A block of memory in which an object of a plain type lies is read back as that object. The type
comes from a text, the places and the bytes of the object from counting without bound; addresses
wrap, and are still aligned.
-/

namespace GoInspect

section Shows

variable (p : UInt32)

mutual

/-- A value is an object of a plain type, whatever the confidence in it and in its parts. -/
def PlainType.Shows : (t : PlainType) → t.Object p → Value → Prop
  | .bool, v, value => value.data = .bool v
  | .integer _ isSigned, v, value =>
    ∃ raw, value.data = .integer raw isSigned ∧
      raw.toBitVec = if isSigned then BitVec.signExtend 64 v else BitVec.setWidth 64 v
  | .array _ element, vs, value =>
    ∃ values, value.data = .array values ∧
      List.Forall₂ (fun v value => element.Shows v value) (Vector.toList vs) values
  | .struct fields, vs, value =>
    ∃ values, value.data = .struct fields.names values ∧ fields.Show vs values

/-- Values are the objects of the fields, in their order. -/
def PlainFields.Show : (fields : PlainFields) → fields.Objects p → List Value → Prop
  | .nil, _, values => values = []
  | .cons _ type rest, vs, values =>
    ∃ first others, values = first :: others ∧ type.Shows vs.1 first ∧ rest.Show vs.2 others

end

end Shows

/-- What shows an object is not bad. -/
theorem PlainType.Shows.isBad {p : UInt32} {t : PlainType} {v : t.Object p} {value : Value}
    (h : t.Shows p v value) : value.isBad = false := by
  cases t with
  | bool => rw [Value.isBad, h]
  | integer width isSigned =>
      obtain ⟨raw, data, _⟩ := h
      rw [Value.isBad, data]
  | array length element =>
      obtain ⟨values, data, _⟩ := h
      rw [Value.isBad, data]
  | struct fields =>
      obtain ⟨values, data, _⟩ := h
      rw [Value.isBad, data]

namespace Extract

/-- A block of memory can be read, and pointers reach all of it. -/
structure Source.Exposes (s : Source) (address : UInt64) (block : Bytes) : Prop where
  wide : s.pointerWidth = 4 ∨ s.pointerWidth = 8
  inside : address.toNat + block.size ≤ 2 ^ (8 * s.pointerWidth.toNat)
  shown : s.memory.Shows address block

variable {s : Source} {base : UInt64} {block : Bytes}

section Scalars

/-- A number that stands in the block is read. -/
theorem Source.Exposes.readUnsigned? (h : s.Exposes base block) {place n : Nat} {width : UInt32}
    (positive : 0 < width.toNat) (few : width.toNat ≤ 8)
    (holds : block.Holds place (littleEndianBytes width.toNat n))
    (fits : n < 256 ^ width.toNat) :
    s.readUnsigned? (base + UInt64.ofNat place) width = some (UInt64.ofNat n) := by
  have inside := h.inside
  have room := holds.le_size (List.ne_nil_of_length_pos (by simpa using positive))
  rw [length_littleEndianBytes] at room
  have pointers : 0 < s.pointerWidth.toNat ∧ s.pointerWidth.toNat ≤ 8 := by
    rcases h.wide with eq | eq <;> rw [eq] <;> decide
  have words : 2 ^ (8 * s.pointerWidth.toNat) ≤ 2 ^ 64 :=
    Nat.pow_le_pow_right (by decide) (by omega)
  have start : (base + UInt64.ofNat place).toNat = base.toNat + place :=
    toNat_add_ofNat (by omega)
  have reached : fitsAddressSpace (base + UInt64.ofNat place) width.toUInt64 s.pointerWidth := by
    rw [fitsAddressSpace_iff pointers.1 pointers.2, start, UInt32.toNat_toUInt64]
    exact ⟨positive, by omega⟩
  rw [Source.readUnsigned?, if_pos reached, h.shown.readUnsigned positive few holds fits]
  rfl

theorem basic_integer (width : IntegerWidth) (isSigned : Bool) (address : UInt64) :
    basic s (width.kind isSigned) address =
      integer s address (width.bytes s.pointerWidth) isSigned := by
  cases width <;> cases isSigned <;> rfl

/-- An integer whose bytes are read is that integer, with its sign. -/
theorem shows_integer {p : UInt32} (wide : p = 4 ∨ p = 8) {address : UInt64} {width : IntegerWidth}
    {isSigned : Bool} {v : BitVec (8 * (width.bytes p).toNat)}
    (read : s.readUnsigned? address (width.bytes p) = some (UInt64.ofNat v.toNat)) :
    (PlainType.integer width isSigned).Shows p v
      (integer s address (width.bytes p) isSigned) := by
  have alignment := width.isAlignment wide
  have positive := alignment.pos
  have few := alignment.le_eight
  have fits : v.toNat < 256 ^ (width.bytes p).toNat := pow_bytes _ ▸ v.isLt
  have words : 2 ^ (8 * (width.bytes p).toNat) ≤ 2 ^ 64 :=
    Nat.pow_le_pow_right (by decide) (by omega)
  have same : (UInt64.ofNat v.toNat).toNat = v.toNat := by
    rw [UInt64.toNat_ofNat', Nat.mod_eq_of_lt (Nat.lt_of_lt_of_le v.isLt words)]
  have low : BitVec.ofNat (8 * (width.bytes p).toNat) (UInt64.ofNat v.toNat).toNat = v := by
    rw [same, BitVec.ofNat_toNat, BitVec.setWidth_eq]
  rw [Extract.integer, read]
  refine ⟨_, rfl, ?_⟩
  cases isSigned with
  | false => rw [if_neg (by decide), if_neg (by decide), toBitVec_unsigned (same.symm ▸ fits), low]
  | true =>
      rw [if_pos rfl, if_pos rfl, toBitVec_signExtend (same.symm ▸ fits) positive few, low]

/-- Integers that are stored are read, with their sign. -/
theorem Source.Exposes.integer (h : s.Exposes base block) {place : Nat} {width : IntegerWidth}
    {isSigned : Bool} {v : BitVec (8 * (width.bytes s.pointerWidth).toNat)}
    (stored : (PlainType.integer width isSigned).Stored s.pointerWidth block v place) :
    (PlainType.integer width isSigned).Shows s.pointerWidth v
      (integer s (base + UInt64.ofNat place) (width.bytes s.pointerWidth) isSigned) := by
  have alignment := width.isAlignment h.wide
  have fits : v.toNat < 256 ^ (width.bytes s.pointerWidth).toNat := pow_bytes _ ▸ v.isLt
  exact shows_integer h.wide (h.readUnsigned? alignment.pos alignment.le_eight stored fits)

theorem Source.Exposes.bool (h : s.Exposes base block) {place : Nat} {v : Bool}
    (stored : PlainType.bool.Stored s.pointerWidth block v place) :
    PlainType.bool.Shows s.pointerWidth v (bool s (base + UInt64.ofNat place)) := by
  have byte : block.Holds place (littleEndianBytes (1 : UInt32).toNat v.toNat) := by
    cases v <;> exact stored
  have fits : v.toNat < 256 ^ (1 : UInt32).toNat := by cases v <;> decide
  rw [Extract.bool, h.readUnsigned? (by decide) (by decide) byte fits]
  cases v <;> rfl

end Scalars

section Parts

variable {read : Reader} {type : GoType} {address : UInt64} {depth : UInt32}

/-- Elements that are read one by one. -/
theorem gives_elements {α : Type} {R : α → Value → Prop} {stride : UInt64}
    (sound : ∀ x v, R x v → v.isBad = false) {xs : List α}
    (each : ∀ (i : Nat) x, xs[i]? = some x →
      Gives (read type (address + UInt64.ofNat i * stride) depth) (R x)) :
    Gives (elements read type stride depth xs.length address)
      fun found => ∃ vs, found = some vs ∧ List.Forall₂ R xs vs := by
  induction xs generalizing address with
  | nil => exact gives_pure ⟨[], rfl, .nil⟩
  | cons x rest ih =>
      have here : Gives (read type address depth) (R x) := by
        simpa using each 0 x rfl
      have later : Gives (elements read type stride depth rest.length (address + stride))
          fun found => ∃ vs, found = some vs ∧ List.Forall₂ R rest vs := by
        apply ih
        intro i y mem
        have next := each (i + 1) y mem
        rwa [UInt64.ofNat_add, UInt64.add_mul, UInt64.ofNat_one, UInt64.one_mul,
          UInt64.add_comm _ stride, ← UInt64.add_assoc] at next
      apply here.bind
      intro v good
      rw [if_neg (by rw [sound x v good]; decide)]
      apply later.bind
      rintro _ ⟨vs, rfl, all⟩
      exact gives_pure ⟨v :: vs, rfl, .cons good all⟩

theorem gives_arrayOf {α : Type} {R : α → Value → Prop} {length total : UInt64}
    (sound : ∀ x v, R x v → v.isBad = false) (fits : fitsArray type length total address = true)
    (deep : depth ≠ 0) {xs : List α} (count : xs.length = length.toNat)
    (each : ∀ (i : Nat) x, xs[i]? = some x →
      Gives (read type (address + UInt64.ofNat i * roundUp type.size type.align) (depth - 1))
        (R x)) :
    Gives (arrayOf read type length total address depth)
      fun value => ∃ vs, value.data = .array vs ∧ List.Forall₂ R xs vs := by
  rw [arrayOf, if_pos fits, if_neg deep, ← count]
  apply (gives_elements sound each).bind
  rintro _ ⟨vs, rfl, all⟩
  exact gives_pure ⟨vs, rfl, all⟩

/-- A field that is read in front of others. -/
theorem gives_fields_cons {R : Value → Prop} {post : List (Text × Value) → Prop} {name : Text}
    {offset : UInt64} {r : TypeRef GoType} {rest : List (Field (TypeRef GoType))}
    (known : s.graph.deref? r = some type) (sound : ∀ v, R v → v.isBad = false)
    (here : Gives (read type (address + offset) depth) R)
    (later : Gives (fields s read address depth rest) post) :
    Gives (fields s read address depth (⟨name, r, offset⟩ :: rest))
      fun found => ∃ v others, found = (name, v) :: others ∧ R v ∧ post others := by
  rw [fields, known]
  apply here.bind
  intro v good
  rw [if_neg (by rw [sound v good]; decide)]
  apply later.bind
  intro others all
  exact gives_pure ⟨v, others, rfl, good, all⟩

/-- A struct all of whose fields are read. -/
theorem gives_struct {post : List Value → Prop} {declared : List (Field (TypeRef GoType))}
    (deep : depth ≠ 0)
    (all : Gives (fields s read address (depth - 1) declared) fun found =>
      found.map Prod.fst = declared.map Field.name ∧ post (found.map Prod.snd)) :
    Gives (struct s read declared address depth)
      fun value => ∃ vs, value.data = .struct (declared.map Field.name) vs ∧ post vs := by
  rw [struct, if_neg deep]
  cases declared with
  | nil =>
      obtain ⟨_, come, _, none⟩ := all {}
      cases come
      exact gives_pure ⟨[], rfl, none⟩
  | cons first rest =>
      rw [if_neg (by simp)]
      apply all.bind
      rintro found ⟨named, shown⟩
      cases found with
      | nil => cases named
      | cons entry others =>
          exact gives_pure ⟨_, congrArg (fun names => ValueData.struct names _) named, shown⟩

end Parts

theorem mod_eq_zero_of_dvd {m place : Nat} (alignment : IsAlignment m)
    (dvd : m ∣ base.toNat + place) : (base + UInt64.ofNat place) % UInt64.ofNat m = 0 := by
  apply UInt64.toNat_inj.mp
  rw [UInt64.toNat_mod, UInt64.toNat_add, alignment.toNat_ofNat, UInt64.toNat_ofNat',
    Nat.add_mod_mod, Nat.mod_mod_of_dvd _ alignment.dvd_word]
  exact Nat.mod_eq_zero_of_dvd dvd

/-- Depth that is left for what lies inside. -/
theorem le_pred {height : Nat} {depth : UInt32} (deep : height + 1 ≤ depth.toNat) :
    depth ≠ 0 ∧ height ≤ (depth - 1).toNat := by
  constructor
  · rintro rfl
    exact absurd deep (Nat.not_succ_le_zero height)
  · rw [UInt32.toNat_sub_of_le _ _ (UInt32.le_iff_toNat_le.mpr (Nat.le_of_add_left_le deep))]
    exact Nat.le_sub_of_add_le deep

open TypeSyntax

mutual

/-- An object that is stored is read, by as many steps inside each other as its type has levels. -/
theorem gives_plain (h : s.Exposes base block) {version : VersionBound} :
    (t : PlainType) → {b : GoType} → {v : t.Object s.pointerWidth} → {place n : Nat} →
    {depth : UInt32} → t.Describes b → Built version s.pointerWidth b →
    t.Stored s.pointerWidth block v place → t.align s.pointerWidth ∣ base.toNat + place →
    t.height ≤ n → t.height ≤ depth.toNat →
    Gives (within s (n + 1) b (base + UInt64.ofNat place) depth) (t.Shows s.pointerWidth v)
  | .bool, b, v, place, n, depth, shape, _, stored, _, _, _ => by
      show Gives (step s (within s n) b _ depth) _
      rw [step, shape]
      exact gives_pure (h.bool stored)
  | .integer width isSigned, b, v, place, n, depth, shape, _, stored, _, _, _ => by
      show Gives (step s (within s n) b _ depth) _
      rw [step, shape]
      dsimp only
      rw [basic_integer]
      exact gives_pure (h.integer stored)
  | .array length element, b, vs, place, n, depth, describes, built, stored, aligned, high,
      deep => by
      obtain ⟨elem, sliceType, e, shape, target, inside⟩ := describes
      obtain ⟨e', rfl, builtElement, size, _⟩ := built.of_array h.wide shape
      cases target
      obtain ⟨elementSize, elementAlign⟩ := element.measured h.wide inside builtElement
      have alignment := element.isAlignment h.wide
      have stride : roundUp e.size e.align = UInt64.ofNat (nextMultiple
          (element.size s.pointerWidth) (element.align s.pointerWidth)) := by
        rw [elementSize, elementAlign, roundUp_ofNat alignment]
      have fits : fitsArray e length b.size (base + UInt64.ofNat place) = true := by
        rw [fitsArray, Bool.and_eq_true, beq_iff_eq, beq_iff_eq, size, elementAlign,
          mod_eq_zero_of_dvd alignment aligned, UInt64.mul_comm]
        exact ⟨rfl, rfl⟩
      obtain ⟨nonzero, left⟩ := le_pred deep
      obtain ⟨n, rfl⟩ := Nat.exists_eq_add_of_le' (Nat.le_of_add_left_le high)
      show Gives (step s (within s (n + 1)) b _ depth) _
      rw [step, shape]
      apply gives_arrayOf (fun _ _ shows => shows.isBad) fits nonzero Vector.length_toList
      intro i v mem
      rw [stride, ← UInt64.ofNat_mul, UInt64.add_assoc, ← UInt64.ofNat_add]
      apply gives_plain h element inside builtElement (stored i v mem) _ _ left
      · -- The stride is a multiple of the alignment, so every element is aligned if the first is.
        rw [← Nat.add_assoc]
        exact Nat.dvd_add aligned (Nat.dvd_mul_left_of_dvd (dvd_nextMultiple _ _) i)
      · exact Nat.le_of_succ_le_succ high
  | .struct fields, b, vs, place, n, depth, describes, built, stored, aligned, high, deep => by
      obtain ⟨declared, shape, inside⟩ := describes
      obtain ⟨members, all, rfl, _, _⟩ := built.of_struct h.wide shape
      obtain ⟨nonzero, left⟩ := le_pred deep
      obtain ⟨n, rfl⟩ := Nat.exists_eq_add_of_le' (Nat.le_of_add_left_le high)
      have found := gives_plainFields h fields 0 inside all stored aligned
        (Nat.le_of_succ_le_succ high) left
      have zero : UInt64.ofNat 0 = 0 := rfl
      rw [zero] at found
      show Gives (step s (within s (n + 1)) b _ depth) _
      rw [step, shape]
      apply (gives_struct nonzero found).mono
      rintro value ⟨values, data, shows⟩
      exact ⟨values, inside.names ▸ data, shows⟩

theorem gives_plainFields (h : s.Exposes base block) {version : VersionBound} :
    (fields : PlainFields) → (start : Nat) → {members : List (Text × GoType)} →
    {vs : fields.Objects s.pointerWidth} → {place n : Nat} → {depth : UInt32} →
    fields.Describe (fieldsFrom (UInt64.ofNat start) members) →
    (∀ f ∈ members, Built version s.pointerWidth f.2) →
    fields.Stored s.pointerWidth block vs place start →
    fields.align s.pointerWidth ∣ base.toNat + place →
    fields.height ≤ n → fields.height ≤ depth.toNat →
    Gives (Extract.fields s (within s (n + 1)) (base + UInt64.ofNat place) depth
        (fieldsFrom (UInt64.ofNat start) members))
      fun found =>
        found.map Prod.fst = (fieldsFrom (UInt64.ofNat start) members).map Field.name ∧
          fields.Show s.pointerWidth vs (found.map Prod.snd)
  | .nil, start, members, _, place, n, depth, describes, _, _, _, _, _ => by
      cases members with
      | nil => exact gives_pure ⟨rfl, rfl⟩
      | cons first others => cases describes
  | .cons name type rest, start, members, vs, place, n, depth, describes, all, stored, aligned,
      high, deep => by
      obtain ⟨t, others, rfl, first, later⟩ := PlainFields.describe_cons describes
      obtain ⟨built, builtOthers⟩ := List.forall_mem_cons.mp all
      obtain ⟨size, align⟩ := type.measured h.wide first built
      obtain ⟨alignedType, alignedRest⟩ := PlainFields.dvd_of_cons h.wide aligned
      have offset : roundUp (UInt64.ofNat start) t.align =
          UInt64.ofNat (nextMultiple start (type.align s.pointerWidth)) := by
        rw [align, roundUp_ofNat (type.isAlignment h.wide)]
      have here : Gives (within s (n + 1) t (base + UInt64.ofNat place +
          roundUp (UInt64.ofNat start) t.align) depth) (type.Shows s.pointerWidth vs.1) := by
        rw [offset, UInt64.add_assoc, ← UInt64.ofNat_add]
        apply gives_plain h type first built stored.1
        · rw [← Nat.add_assoc]
          exact Nat.dvd_add alignedType (dvd_nextMultiple _ _)
        · exact Nat.le_trans (Nat.le_max_left _ _) high
        · exact Nat.le_trans (Nat.le_max_left _ _) deep
      have next : roundUp (UInt64.ofNat start) t.align + t.size = UInt64.ofNat
          (nextMultiple start (type.align s.pointerWidth) + type.size s.pointerWidth) := by
        rw [offset, size, UInt64.ofNat_add]
      rw [next] at later
      have behind := gives_plainFields h rest _ later builtOthers stored.2 alignedRest
        (Nat.le_trans (Nat.le_max_right _ _) high) (Nat.le_trans (Nat.le_max_right _ _) deep)
      rw [fieldsFrom, next]
      apply (gives_fields_cons rfl (fun _ shows => shows.isBad) here behind).mono
      rintro _ ⟨v, found, rfl, shows, named, showRest⟩
      exact ⟨congrArg (name :: ·) named, v, _, rfl, shows, showRest⟩

end

/-- Reading gives back what memory holds. Whatever text a type comes from, if it is of the form of a
plain type then any object of that type that memory holds is read as that object, down to the last
element and the last field, and reading leaves nothing behind. -/
theorem reader_stored {version : VersionBound} {text : Text} {b : GoType} {t : PlainType}
    {v : t.Object s.pointerWidth} {depth : UInt32}
    (wide : s.pointerWidth = 4 ∨ s.pointerWidth = 8)
    (parsed : parse .empty version s.pointerWidth text = some (.built b)) (form : t.Describes b)
    (aligned : base % b.align = 0)
    (inside : base.toNat + b.size.toNat ≤ 2 ^ (8 * s.pointerWidth.toNat))
    (full : block.size = b.size.toNat) (shown : s.memory.Shows base block)
    (stored : t.Stored s.pointerWidth block v 0) (deep : t.height ≤ depth.toNat) (trace : Trace) :
    ∃ value, reader s b base depth trace = some (value, trace) ∧
      t.Shows s.pointerWidth v value := by
  obtain ⟨b, eq, built⟩ := parse_built parsed
  cases eq
  have exposed : s.Exposes base block := ⟨wide, full ▸ inside, shown⟩
  obtain ⟨_, align⟩ := t.measured wide form built
  have multiple : t.align s.pointerWidth ∣ base.toNat + 0 := by
    have zero := congrArg UInt64.toNat aligned
    rw [align, UInt64.toNat_mod, (t.isAlignment wide).toNat_ofNat] at zero
    exact Nat.dvd_of_mod_eq_zero zero
  have below : t.height ≤ limit - 1 := by
    have bound := depth.toNat_lt
    show t.height ≤ 0x4000000000000000 - 1
    omega
  have start : base + UInt64.ofNat 0 = base := UInt64.add_zero base
  have bound : limit - 1 + 1 = limit := rfl
  have found := gives_plain exposed t form built stored multiple below deep trace
  rwa [start, bound] at found

section Sample

/-- A byte, a byte of padding, and two numbers of two bytes. -/
def sampleText : Text := utf8 "struct \x7b a int8; b [2]uint16 \x7d"

def sampleType : PlainType :=
  .struct (.cons (utf8 "a") (.integer .one true)
    (.cons (utf8 "b") (.array 2 (.integer .two false)) .nil))

/-- The numbers -5, 4660 and 65535. -/
def sampleObject : sampleType.Object 8 := (0xFB#8, (#v[0x1234#16, 0xFFFF#16], ()))

def sampleBlock : Bytes := #[0xFB, 0x77, 0x34, 0x12, 0xFF, 0xFF]

def sampleSource : Source where
  memory := (MappedMemory.map ⟨∅, 0⟩ 0x2000 sampleBlock).toMemory
  pointerWidth := 8
  graph := .empty
  settings := {}

def int8Type : GoType := make ⟨20, 20⟩ (utf8 "int8") (.basic .int8) 1 1

def uint16Type : GoType := make ⟨20, 20⟩ (utf8 "uint16") (.basic .uint16) 2 2

def pairType : GoType :=
  make ⟨20, 20⟩ (utf8 "[2]uint16") (.array (reference (.built uint16Type)) ⟨0, none⟩ 2) 4 2

def sampleStruct : GoType :=
  structOf ⟨20, 20⟩ sampleText (Layout.addAll {} [(utf8 "a", int8Type), (utf8 "b", pairType)])

theorem parse_int8 : parse .empty ⟨20, 20⟩ 8 (utf8 "int8") = some (.built int8Type) :=
  parse_basic rfl rfl

theorem parse_pair : parse .empty ⟨20, 20⟩ 8 (utf8 "[2]uint16") = some (.built pairType) := by
  have element : parse .empty ⟨20, 20⟩ 8 (utf8 "uint16") = some (.built uint16Type) :=
    parse_basic rfl rfl
  have parts : Text.cut? 93 ((utf8 "[2]uint16").drop 1) = some (utf8 "2", utf8 "uint16") := rfl
  rw [parse_array rfl rfl (by decide) (by decide) parts, element]
  rfl

theorem parse_sample : parse .empty ⟨20, 20⟩ 8 sampleText = some (.built sampleStruct) := by
  have first : member? .empty ⟨20, 20⟩ 8 (utf8 "a int8") = some (utf8 "a", .built int8Type) :=
    congrArg (Option.map (Prod.mk (utf8 "a"))) parse_int8
  have second : member? .empty ⟨20, 20⟩ 8 (utf8 " b [2]uint16") =
      some (utf8 "b", .built pairType) :=
    congrArg (Option.map (Prod.mk (utf8 "b"))) parse_pair
  have body : structBody? sampleText = some (utf8 "a int8; b [2]uint16") := by decide
  have pieces : declarations (utf8 "a int8; b [2]uint16") =
      [utf8 "a int8", utf8 " b [2]uint16"] := by decide
  rw [parse_struct rfl rfl (by decide) (by decide) (by decide), body, Option.bind_some, pieces,
    List.mapM_cons, List.mapM_cons, first, second]
  rfl

/-- The sample is read back. -/
theorem reader_stored_sample :
    parse .empty ⟨20, 20⟩ 8 sampleText = some (.built sampleStruct) ∧
      sampleType.Describes sampleStruct ∧ sampleType.Stored 8 sampleBlock sampleObject 0 ∧
      ∃ value, reader sampleSource sampleStruct 0x2000 2 {} = some (value, {}) ∧
        sampleType.Shows 8 sampleObject value := by
  have form : sampleType.Describes sampleStruct := by
    refine ⟨_, rfl, _, _, _, rfl, rfl, rfl, rfl, _, _, _, rfl, rfl, rfl, ?_, rfl⟩
    exact ⟨_, _, _, rfl, rfl, rfl⟩
  have stored : sampleType.Stored 8 sampleBlock sampleObject 0 := by
    refine ⟨?_, ?_, trivial⟩
    · show sampleBlock.Holds 0 [0xFB]
      decide
    · rintro (_ | _ | i) v mem
      · cases mem
        show sampleBlock.Holds 2 [0x34, 0x12]
        decide
      · cases mem
        show sampleBlock.Holds 4 [0xFF, 0xFF]
        decide
      · cases mem
  have shown : sampleSource.memory.Shows 0x2000 sampleBlock := MappedMemory.shows_map (by decide)
  exact ⟨parse_sample, form, stored, reader_stored (.inr rfl) parse_sample form (by decide)
    (by decide) (by decide) shown stored (by decide) {}⟩

end Sample

end Extract

end GoInspect
