import GoInspect.Extract
import GoInspect.Proofs.Memory
import GoInspect.Proofs.Extract.Reading

/-!
# Values that conform to a type

What comes out of reading an object is either bad as a whole, or it has nothing bad inside and the
form that its type asks for. Values may be cut short where the code does so: long slices and
strings, objects below the depth, and fields after one that cannot be read.
-/

namespace GoInspect

def ValueData.children {ν : Type} : ValueData ν → List ν
  | .array elements => elements
  | .slice _ _ _ elements => elements
  | .struct _ values => values
  | .map keys values => keys ++ values
  | _ => []

namespace Value

/-- A value occurs in another one, at any level. -/
inductive Part (u : Value) : Value → Prop where
  | self : Part u u
  | inside {v child : Value} : child ∈ v.data.children → Part u child → Part u v

/-- Nothing bad occurs in the value. -/
def Clean (v : Value) : Prop := ∀ u, Part u v → u.isBad = false

theorem clean_mk {c : Float} {d : ValueData Value} (sound : (mk c d).isBad = false)
    (inside : ∀ v ∈ d.children, v.Clean) : (mk c d).Clean := by
  intro u part
  cases part with
  | self => exact sound
  | inside child part => exact inside _ child u part

theorem Clean.child {v child : Value} (h : v.Clean) (mem : child ∈ v.data.children) :
    child.Clean := by
  intro u part
  exact h u (.inside mem part)

theorem clean_unparsed (address : UInt64) (c : Float) : (unparsed address c).Clean :=
  clean_mk rfl fun _ none => nomatch none

theorem clean_pointer (address : UInt64) (c : Float) : (pointer address c).Clean :=
  clean_mk rfl fun _ none => nomatch none

end Value

namespace Extract

variable {s : Source}

/-- The word holds the low bytes of an integer, extended by its sign if it has one. -/
def ExtendedFrom (width : UInt32) (isSigned : Bool) (raw : UInt64) : Prop :=
  ∃ low : BitVec (8 * width.toNat),
    raw.toBitVec = if isSigned then low.signExtend 64 else low.setWidth 64

theorem pow_bytes (n : Nat) : 256 ^ n = 2 ^ (8 * n) := by
  rw [Nat.pow_mul]

/-- Numbers of a width are their own low bytes. -/
theorem toBitVec_unsigned {raw : UInt64} {width : UInt32} (bound : raw.toNat < 256 ^ width.toNat) :
    raw.toBitVec = (BitVec.ofNat (8 * width.toNat) raw.toNat).setWidth 64 := by
  have fits : raw.toNat % 2 ^ (8 * width.toNat) = raw.toNat :=
    Nat.mod_eq_of_lt (pow_bytes width.toNat ▸ bound)
  apply BitVec.eq_of_toNat_eq
  rw [BitVec.toNat_setWidth, BitVec.toNat_ofNat, fits]
  exact (Nat.mod_eq_of_lt raw.toNat_lt).symm

/-- Sign extension by addition is that of the low bytes. -/
theorem toBitVec_signExtend {raw : UInt64} {width : UInt32}
    (bound : raw.toNat < 256 ^ width.toNat) (some : 0 < width.toNat) (few : width.toNat ≤ 8) :
    (signExtend raw width).toBitVec =
      (BitVec.ofNat (8 * width.toNat) raw.toNat).signExtend 64 := by
  rw [pow_bytes] at bound
  have below := raw.toNat_lt
  have top : (BitVec.ofNat (8 * width.toNat) raw.toNat).msb =
      raw.toNat.testBit (8 * width.toNat - 1) := by
    have inside : 8 * width.toNat - 1 < 8 * width.toNat := by omega
    rw [BitVec.msb_eq_getLsbD_last, BitVec.getLsbD_ofNat, decide_eq_true inside, Bool.true_and]
  apply BitVec.eq_of_toNat_eq
  rw [BitVec.toNat_signExtend, BitVec.toNat_setWidth, BitVec.toNat_ofNat,
    Nat.mod_eq_of_lt bound, Nat.mod_eq_of_lt below, top]
  rw [signExtend]
  by_cases sign : raw.toNat.testBit (8 * width.toNat - 1) = true
  · rw [if_pos sign]
    by_cases narrow : width < 8
    · rw [if_pos ⟨narrow, sign⟩]
      have narrow : width.toNat < 8 := narrow
      have room : 2 ^ (8 * width.toNat) ≤ 2 ^ 64 := Nat.pow_le_pow_right (by decide) (by omega)
      have power : Nat.pow 256 width.toNat = 2 ^ (8 * width.toNat) := pow_bytes width.toNat
      have positive : 0 < 2 ^ (8 * width.toNat) := Nat.pow_pos (by decide)
      rw [UInt64.toNat_toBitVec, UInt64.toNat_add, power, UInt64.toNat_ofNat']
      omega
    · have narrow : ¬ width.toNat < 8 := narrow
      have full : width.toNat = 8 := by omega
      rw [if_neg fun h => narrow h.1, full]
      rfl
  · rw [if_neg sign, if_neg fun h => sign h.2]
    rfl

/-- The width and the sign of the integers of a kind, if it is one of integers. -/
def integerForm? (pointerWidth : UInt32) : BasicKind → Option (UInt32 × Bool)
  | .int => some (pointerWidth, true)
  | .int8 => some (1, true)
  | .int16 => some (2, true)
  | .int32 => some (4, true)
  | .int64 => some (8, true)
  | .uint => some (pointerWidth, false)
  | .uint8 => some (1, false)
  | .uint16 => some (2, false)
  | .uint32 => some (4, false)
  | .uint64 => some (8, false)
  | _ => none

/-- What was read has the form of a basic kind. -/
inductive BasicConforms (s : Source) : BasicKind → ValueData Value → Prop where
  | integer {kind : BasicKind} {width : UInt32} {isSigned : Bool} {raw : UInt64} :
      integerForm? s.pointerWidth kind = some (width, isSigned) →
      ExtendedFrom width isSigned raw → BasicConforms s kind (.integer raw isSigned)
  | bool {value : Bool} : BasicConforms s .bool (.bool value)
  | float {kind : BasicKind} {value : Double} : kind = .float32 ∨ kind = .float64 →
      BasicConforms s kind (.float value)
  | complex {kind : BasicKind} {re im : Double} : kind = .complex64 ∨ kind = .complex128 →
      BasicConforms s kind (.complex re im)
  | address {kind : BasicKind} {value : UInt64} : kind = .uintptr ∨ kind = .unsafePointer →
      BasicConforms s kind (.pointer value)
  | string {base length : UInt64} {bytes : Bytes} :
      bytes.size = 0 ∨ bytes.size = min length.toNat longString.toNat →
      BasicConforms s .string (.string base length bytes)

/-- A value has the form that its type asks for. -/
inductive Conforms (s : Source) : GoType → Value → Prop where
  | basic {t : GoType} {c : Float} {kind : BasicKind} {data : ValueData Value} :
      t.shape = .basic kind → BasicConforms s kind data → Conforms s t (.mk c data)
  /-- Channels and functions are shown by their address. -/
  | place {t : GoType} {c : Float} {address : UInt64} : t.kind = .chan ∨ t.kind = .func →
      Conforms s t (.mk c (.pointer address))
  /-- Objects below the depth, and those that a pointer leads to once more. -/
  | unparsed {t : GoType} {c : Float} {address : UInt64} :
      t.kind ∈ [.array, .slice, .struct, .map, .pointer, .interface] →
      Conforms s t (.mk c (.unparsed address))
  | array {t e : GoType} {elem sliceType : TypeRef GoType} {length : UInt64} {c : Float}
      {vs : List Value} : t.shape = .array elem sliceType length → s.graph.deref? elem = some e →
      vs.length = length.toNat → (∀ v ∈ vs, Conforms s e v) → Conforms s t (.mk c (.array vs))
  | slice {t e : GoType} {elem : TypeRef GoType} {base length capacity : UInt64} {c : Float}
      {vs : List Value} : t.shape = .slice elem → s.graph.deref? elem = some e →
      length ≤ capacity → vs = [] ∨ vs.length = min length.toNat longSlice.toNat →
      (∀ v ∈ vs, Conforms s e v) → Conforms s t (.mk c (.slice base length capacity vs))
  | struct {t : GoType} {declared : List (Field (TypeRef GoType))} {c : Float}
      {names : List Text} {values : List Value} : t.shape = .struct declared →
      names.length = values.length → names <+: declared.map Field.name →
      (∀ f ∈ declared.take values.length, (s.graph.deref? f.type).isSome) →
      (∀ (i : Nat) f v e, declared[i]? = some f → values[i]? = some v →
        s.graph.deref? f.type = some e → Conforms s e v) →
      Conforms s t (.mk c (.struct names values))
  | map {t : GoType} {key value bucket : TypeRef GoType} {c : Float} {keys values : List Value} :
      t.shape = .map key value bucket → keys.length = values.length →
      Conforms s t (.mk c (.map keys values))
  | pointer {t : GoType} {c : Float} {address : UInt64} :
      t.kind = .pointer ∨ t.kind = .interface → Conforms s t (.mk c (.pointer address))
  | target {t e : GoType} {elem : TypeRef GoType} {v : Value} : t.shape = .pointer elem →
      s.graph.deref? elem = some e → Conforms s e v → Conforms s t v
  /-- The type of an interface value is a type of the graph. -/
  | dynamic {t e : GoType} {methods : List (Method (TypeRef GoType))} {place : UInt64}
      {v : Value} : t.shape = .interface methods → s.graph.find? place = some e →
      Conforms s e v → Conforms s t v

/-- What extraction promises: a value that is bad as a whole, or one without anything bad that has
the form of its type. -/
def Extracted (s : Source) (t : GoType) (v : Value) : Prop :=
  v = .bad ∨ (v.Clean ∧ Conforms s t v)

theorem Extracted.of_isBad_eq_false {t : GoType} {v : Value} (h : Extracted s t v)
    (sound : v.isBad = false) : v.Clean ∧ Conforms s t v := by
  obtain rfl | good := h
  · cases sound
  · exact good

section Basic

/-- A basic object is bad, or it has the form of its kind and nothing inside. -/
def Plain (s : Source) (kind : BasicKind) (v : Value) : Prop :=
  v = .bad ∨ ∃ c data, v = .mk c data ∧ BasicConforms s kind data

theorem BasicConforms.clean {kind : BasicKind} {c : Float} {data : ValueData Value}
    (h : BasicConforms s kind data) : (Value.mk c data).Clean := by
  cases h <;> exact Value.clean_mk rfl fun _ none => nomatch none

theorem Plain.extracted {t : GoType} {kind : BasicKind} {v : Value} (shape : t.shape = .basic kind)
    (h : Plain s kind v) : Extracted s t v := by
  obtain bad | ⟨c, data, rfl, form⟩ := h
  · exact .inl bad
  · exact .inr ⟨form.clean, .basic shape form⟩

theorem readUnsigned?_eq_some {address value : UInt64} {width : UInt32}
    (h : s.readUnsigned? address width = some value) :
    s.memory.readUnsigned address width = .ok value := by
  rw [Source.readUnsigned?] at h
  split at h
  · cases read : s.memory.readUnsigned address width with
    | error e =>
        rw [read] at h
        cases h
    | ok raw =>
        rw [read] at h
        cases h
        rfl
  · cases h

theorem plain_integer {kind : BasicKind} {width : UInt32} {isSigned : Bool}
    (form : integerForm? s.pointerWidth kind = some (width, isSigned)) (address : UInt64) :
    Plain s kind (integer s address width isSigned) := by
  rw [integer]
  cases found : s.readUnsigned? address width with
  | none => exact .inl rfl
  | some raw =>
      have read := readUnsigned?_eq_some found
      have bound := Memory.readUnsigned_lt read
      obtain ⟨positive, few⟩ := Memory.width_of_readUnsigned read
      refine .inr ⟨_, _, rfl, .integer form ?_⟩
      refine ⟨BitVec.ofNat _ raw.toNat, ?_⟩
      cases isSigned with
      | false => exact toBitVec_unsigned bound
      | true => exact toBitVec_signExtend bound positive few

theorem plain_float {kind : BasicKind} (floats : kind = .float32 ∨ kind = .float64)
    (value : Option Double) : Plain s kind (float value) := by
  cases value with
  | none => exact .inl rfl
  | some d => exact .inr ⟨_, _, rfl, .float floats⟩

theorem plain_complex {kind : BasicKind} (complexes : kind = .complex64 ∨ kind = .complex128)
    (re im : Option Double) : Plain s kind (complex re im) := by
  simp only [complex]
  split
  · exact .inr ⟨_, _, rfl, .complex complexes⟩
  · exact .inl rfl

theorem plain_bool (address : UInt64) : Plain s .bool (bool s address) := by
  rw [bool]
  split
  · exact .inr ⟨_, _, rfl, .bool⟩
  · exact .inr ⟨_, _, rfl, .bool⟩
  · exact .inl rfl

theorem plain_word {kind : BasicKind} (words : kind = .uintptr ∨ kind = .unsafePointer)
    (address : UInt64) : Plain s kind (word s address) := by
  rw [word]
  split
  · exact .inr ⟨_, _, rfl, .address words⟩
  · exact .inl rfl

theorem toNat_min (a b : UInt64) : (min a b).toNat = min a.toNat b.toNat := by
  rw [Nat.min_def]
  by_cases h : a ≤ b
  · have least : min a b = a := if_pos h
    rw [least, if_pos (UInt64.le_iff_toNat_le.mp h)]
  · have least : min a b = b := if_neg h
    rw [least, if_neg fun above => h (UInt64.le_iff_toNat_le.mpr above)]

/-- Bytes that were fetched are as many as were asked for. -/
theorem Source.readBytes?_size {base length : UInt64} {data : Bytes} (exact : s.memory.Exact)
    (fetched : s.readBytes? base length = some data) : data.size = length.toNat := by
  rw [Source.readBytes?] at fetched
  split at fetched
  · cases come : s.memory.readBytes base length with
    | error e =>
        rw [come] at fetched
        cases fetched
    | ok bytes =>
        rw [come] at fetched
        cases fetched
        exact exact _ _ _ come
  · cases fetched

theorem plain_string (exact : s.memory.Exact) (address : UInt64) :
    Plain s .string (string s address) := by
  rw [string]
  split
  · next base length _ _ =>
    split
    · exact .inr ⟨_, _, rfl, .string (.inl rfl)⟩
    · split
      · exact .inr ⟨_, _, rfl, .string (.inl rfl)⟩
      · next bytes read =>
        refine .inr ⟨_, _, rfl, .string (.inr ?_)⟩
        rw [Source.readBytes?_size exact read, toNat_min]
  · exact .inl rfl

/-- All basic kinds. -/
theorem plain_basic (exact : s.memory.Exact) (kind : BasicKind) (address : UInt64) :
    Plain s kind (basic s kind address) := by
  cases kind with
  | invalid => exact .inl rfl
  | bool => exact plain_bool address
  | int | int8 | int16 | int32 | int64 | uint | uint8 | uint16 | uint32 | uint64 =>
      exact plain_integer rfl address
  | uintptr => exact plain_word (.inl rfl) address
  | unsafePointer => exact plain_word (.inr rfl) address
  | float32 => exact plain_float (.inl rfl) _
  | float64 => exact plain_float (.inr rfl) _
  | complex64 => exact plain_complex (.inl rfl) _ _
  | complex128 => exact plain_complex (.inr rfl) _ _
  | string => exact plain_string exact address

end Basic

end Extract

end GoInspect
