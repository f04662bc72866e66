import GoInspect.Proofs.Bytes
import GoInspect.Proofs.GoType.Syntax

/-!
# Plain types

The types whose objects are their own bytes: booleans, integers, and the arrays and structs of them.
Here their objects are laid out by counting without bound: each field at the next place that fits
its alignment, each element a padded size behind the one before it. A built type of the same form
has the same size and the same alignment, as far as words of 64 bits go.
-/

namespace GoInspect

inductive IntegerWidth where
  | one | two | four | eight
  /-- As wide as a pointer. -/
  | pointer
  deriving DecidableEq, Repr

namespace IntegerWidth

/-- The bytes of an integer, given those of a pointer. -/
def bytes (p : UInt32) : IntegerWidth → UInt32
  | one => 1
  | two => 2
  | four => 4
  | eight => 8
  | pointer => p

/-- The kind of the integers of a width, with a sign or without one. -/
def kind : IntegerWidth → (isSigned : Bool) → BasicKind
  | one, isSigned => if isSigned then .int8 else .uint8
  | two, isSigned => if isSigned then .int16 else .uint16
  | four, isSigned => if isSigned then .int32 else .uint32
  | eight, isSigned => if isSigned then .int64 else .uint64
  | pointer, isSigned => if isSigned then .int else .uint

end IntegerWidth

mutual

/-- A type whose objects are their own bytes. -/
inductive PlainType where
  | bool
  | integer (width : IntegerWidth) (isSigned : Bool)
  | array (length : UInt64) (element : PlainType)
  | struct (fields : PlainFields)

/-- The fields of a struct, in the order in which they lie. -/
inductive PlainFields where
  | nil
  | cons (name : Text) (type : PlainType) (rest : PlainFields)

end

def PlainFields.names : PlainFields → List Text
  | .nil => []
  | .cons name _ rest => name :: rest.names

mutual

/-- How many arrays and structs lie inside each other at most. -/
def PlainType.height : PlainType → Nat
  | .bool => 0
  | .integer _ _ => 0
  | .array _ element => element.height + 1
  | .struct fields => fields.height + 1

/-- How many arrays and structs lie inside each other in a field at most. -/
def PlainFields.height : PlainFields → Nat
  | .nil => 0
  | .cons _ type rest => max type.height rest.height

end

mutual

/-- A type has the form of a plain type, in whatever way its objects are laid out. -/
def PlainType.Describes : PlainType → GoType → Prop
  | .bool, t => t.shape = .basic .bool
  | .integer width isSigned, t => t.shape = .basic (width.kind isSigned)
  | .array length element, t =>
    ∃ elem sliceType e, t.shape = .array elem sliceType length ∧ elem.target = some (.built e) ∧
      element.Describes e
  | .struct fields, t => ∃ declared, t.shape = .struct declared ∧ fields.Describe declared

/-- Declared fields have the names of plain fields, and types of the form of theirs. -/
def PlainFields.Describe : PlainFields → List (Field (TypeRef GoType)) → Prop
  | .nil, declared => declared = []
  | .cons name type rest, declared =>
    ∃ f others t, declared = f :: others ∧ f.name = name ∧ f.type.target = some (.built t) ∧
      type.Describes t ∧ rest.Describe others

end

theorem PlainFields.Describe.names {fields : PlainFields}
    {declared : List (Field (TypeRef GoType))} (h : fields.Describe declared) :
    declared.map Field.name = fields.names := by
  cases fields with
  | nil =>
      cases h
      rfl
  | cons name type rest =>
      obtain ⟨f, others, t, rfl, rfl, _, _, later⟩ := h
      exact congrArg (f.name :: ·) later.names

section Layout

variable (p : UInt32)

mutual

/-- What the places of objects are multiples of. -/
def PlainType.align : PlainType → Nat
  | .bool => 1
  | .integer width _ => (width.bytes p).toNat
  | .array _ element => element.align
  | .struct fields => fields.align

/-- What the places of structs of the fields are multiples of. -/
def PlainFields.align : PlainFields → Nat
  | .nil => 1
  | .cons _ type rest => max type.align rest.align

end

mutual

def PlainType.size : PlainType → Nat
  | .bool => 1
  | .integer width _ => (width.bytes p).toNat
  | .array length element => length.toNat * nextMultiple element.size (element.align p)
  | .struct fields => nextMultiple (fields.stop 0) (fields.align p)

/-- The end of the last field, where the first one lies no earlier than at `start`. -/
def PlainFields.stop : PlainFields → (start : Nat) → Nat
  | .nil, start => start
  | .cons _ type rest, start => rest.stop (nextMultiple start (type.align p) + type.size)

end

mutual

/-- The objects of a type. Integers are given by their bits. -/
def PlainType.Object : PlainType → Type
  | .bool => Bool
  | .integer width _ => BitVec (8 * (width.bytes p).toNat)
  | .array length element => Vector element.Object length.toNat
  | .struct fields => fields.Objects

/-- One object for each field. -/
def PlainFields.Objects : PlainFields → Type
  | .nil => Unit
  | .cons _ type rest => type.Object × rest.Objects

end

mutual

/-- An object lies at a place of a block. -/
def PlainType.Stored (block : Bytes) : (t : PlainType) → t.Object p → (place : Nat) → Prop
  | .bool, v, place => block.Holds place [Bool.toUInt8 v]
  | .integer width _, v, place =>
    block.Holds place (littleEndianBytes (width.bytes p).toNat (BitVec.toNat v))
  | .array _ element, vs, place =>
    ∀ (i : Nat) (v : element.Object p), (Vector.toList vs)[i]? = some v →
      element.Stored block v (place + i * nextMultiple (element.size p) (element.align p))
  | .struct fields, vs, place => fields.Stored block vs place 0

/-- Objects lie in a struct at a place of a block, the first one no earlier than `start` bytes
behind that place. -/
def PlainFields.Stored (block : Bytes) :
    (fields : PlainFields) → fields.Objects p → (place start : Nat) → Prop
  | .nil, _, _, _ => True
  | .cons _ type rest, vs, place, start =>
    type.Stored block vs.1 (place + nextMultiple start (type.align p)) ∧
      rest.Stored block vs.2 place (nextMultiple start (type.align p) + type.size p)

end

end Layout

section Agreement

open TypeSyntax

variable {p : UInt32}

theorem IntegerWidth.isAlignment (wide : p = 4 ∨ p = 8) (width : IntegerWidth) :
    IsAlignment (width.bytes p).toNat := by
  rcases wide with rfl | rfl <;> cases width <;> decide

mutual

theorem PlainType.isAlignment (wide : p = 4 ∨ p = 8) : (t : PlainType) → IsAlignment (t.align p)
  | .bool => .inl rfl
  | .integer width _ => width.isAlignment wide
  | .array _ element => element.isAlignment wide
  | .struct fields => fields.isAlignment wide

theorem PlainFields.isAlignment (wide : p = 4 ∨ p = 8) :
    (fields : PlainFields) → IsAlignment (fields.align p)
  | .nil => .inl rfl
  | .cons _ type rest => (type.isAlignment wide).max (rest.isAlignment wide)

end

/-- What a struct is aligned to, each of its fields is aligned to. -/
theorem PlainFields.dvd_of_cons (wide : p = 4 ∨ p = 8) {name : Text} {type : PlainType}
    {rest : PlainFields} {place : Nat} (h : (cons name type rest).align p ∣ place) :
    type.align p ∣ place ∧ rest.align p ∣ place := by
  have first := type.isAlignment wide
  have later := rest.isAlignment wide
  constructor
  · exact (first.dvd_of_le (first.max later) (Nat.le_max_left _ _)).trans h
  · exact (later.dvd_of_le (first.max later) (Nat.le_max_right _ _)).trans h

/-- Integers take the room of their width. -/
theorem room_integer (wide : p = 4 ∨ p = 8) {width : IntegerWidth} {isSigned : Bool} {room : Room}
    (mem : (width.kind isSigned, room) ∈ basicTypes) :
    room.size p = UInt64.ofNat (width.bytes p).toNat ∧
      room.align p = UInt64.ofNat (width.bytes p).toNat := by
  have all : ∀ entry ∈ basicTypes, entry.1 = width.kind isSigned →
      entry.2.size p = UInt64.ofNat (width.bytes p).toNat ∧
        entry.2.align p = UInt64.ofNat (width.bytes p).toNat := by
    rcases wide with rfl | rfl <;> cases width <;> cases isSigned <;> decide
  exact all _ mem rfl

theorem room_bool {room : Room} (mem : (BasicKind.bool, room) ∈ basicTypes) :
    room = .bytes 1 1 := by
  have all : ∀ entry ∈ basicTypes, entry.1 = .bool → entry.2 = .bytes 1 1 := by decide
  exact all _ mem rfl

/-- Fields that are laid out have the form of plain ones if their types have. -/
theorem PlainFields.describe_cons {name : Text} {type : PlainType} {rest : PlainFields}
    {start : UInt64} {members : List (Text × GoType)}
    (h : (cons name type rest).Describe (fieldsFrom start members)) :
    ∃ t others, members = (name, t) :: others ∧ type.Describes t ∧
      rest.Describe (fieldsFrom (roundUp start t.align + t.size) others) := by
  obtain ⟨f, more, t, eq, named, target, first, later⟩ := h
  cases members with
  | nil => cases eq
  | cons member others =>
      cases eq
      cases named
      cases target
      exact ⟨_, others, rfl, first, later⟩

mutual

/-- A built type of the form of a plain type is as large and aligned as that. -/
theorem PlainType.measured (wide : p = 4 ∨ p = 8) {version : VersionBound} :
    (t : PlainType) → {b : GoType} → t.Describes b → Built version p b →
    b.size = UInt64.ofNat (t.size p) ∧ b.align = UInt64.ofNat (t.align p)
  | .bool, b, shape, built => by
      obtain ⟨room, mem, size, align⟩ := built.of_basic wide shape
      rw [size, align, room_bool mem]
      exact ⟨rfl, rfl⟩
  | .integer width isSigned, b, shape, built => by
      obtain ⟨room, mem, size, align⟩ := built.of_basic wide shape
      rw [size, align]
      exact room_integer wide mem
  | .array length element, b, describes, built => by
      obtain ⟨elem, sliceType, e, shape, target, inside⟩ := describes
      obtain ⟨e', rfl, builtElement, size, align⟩ := built.of_array wide shape
      cases target
      obtain ⟨elementSize, elementAlign⟩ := element.measured wide inside builtElement
      constructor
      · rw [size, elementSize, elementAlign, roundUp_ofNat (element.isAlignment wide),
          PlainType.size, UInt64.ofNat_mul, UInt64.ofNat_toNat]
      · rw [align, elementAlign, PlainType.align]
  | .struct fields, b, describes, built => by
      obtain ⟨declared, shape, inside⟩ := describes
      obtain ⟨members, all, rfl, size, align⟩ := built.of_struct wide shape
      obtain ⟨stop, common⟩ :=
        fields.measured wide (l := {}) (n := 0) (m := 1) rfl rfl (by decide) inside all
      have least : max 1 (fields.align p) = fields.align p :=
        Nat.max_eq_right (fields.isAlignment wide).pos
      rw [least] at common
      rw [size, align, stop, common, roundUp_ofNat (fields.isAlignment wide)]
      exact ⟨rfl, rfl⟩

/-- Fields that are laid out behind others end where plain ones do. -/
theorem PlainFields.measured (wide : p = 4 ∨ p = 8) {version : VersionBound} :
    (fields : PlainFields) → {l : Layout} → {n m : Nat} → {members : List (Text × GoType)} →
    l.stop = UInt64.ofNat n → l.align = UInt64.ofNat m →
    IsAlignment m → fields.Describe (fieldsFrom l.stop members) →
    (∀ f ∈ members, Built version p f.2) →
    (l.addAll members).stop = UInt64.ofNat (fields.stop p n) ∧
      (l.addAll members).align = UInt64.ofNat (max m (fields.align p))
  | .nil, l, n, m, members, stop, align, hm, describes, _ => by
      cases members with
      | nil => exact ⟨stop, align.trans (congrArg _ (Nat.max_eq_left hm.pos).symm)⟩
      | cons first others => cases describes
  | .cons name type rest, l, n, m, members, stop, align, hm, describes, all => by
      obtain ⟨t, others, rfl, first, later⟩ := PlainFields.describe_cons describes
      obtain ⟨built, builtOthers⟩ := List.forall_mem_cons.mp all
      obtain ⟨size, aligned⟩ := type.measured wide first built
      have ht := type.isAlignment wide
      rw [Layout.addAll_cons, PlainFields.stop, PlainFields.align, ← Nat.max_assoc]
      apply rest.measured wide (l := l.add name (.built t) t) _ _ (hm.max ht) later builtOthers
      · show roundUp l.stop t.align + t.size = _
        rw [stop, size, aligned, roundUp_ofNat ht, UInt64.ofNat_add]
      · show commonAlign l.align t.align = _
        rw [align, aligned, commonAlign_ofNat hm ht]

end

end Agreement

end GoInspect
