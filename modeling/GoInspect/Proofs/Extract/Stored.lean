import GoInspect.Proofs.Extract.RoundTrip
import GoInspect.Proofs.GoType.Parse
import Mathlib.Data.List.Forall2

/-!
# Objects of types that are what a term says

What lies in memory is given by its bytes, at addresses that are natural numbers, so that what lies
behind something else is found by adding. Integers, arrays and structs that lie there are read if
the types are what terms say, whether they come from the graph or were built.
-/

namespace GoInspect

open TypeSyntax TypeTerm

theorem nextMultiple_of_dvd {n m : Nat} (positive : 0 < m) (dvd : m ∣ n) :
    nextMultiple n m = n := by
  obtain ⟨c, rfl⟩ := dvd
  have quotient : (m * c + m - 1) / m = c := by
    rw [Nat.add_sub_assoc positive, Nat.mul_add_div positive, Nat.div_eq_of_lt (by omega),
      Nat.add_zero]
  rw [nextMultiple, quotient, Nat.mul_comm]

theorem IsAlignment.dvd_eight {m : Nat} (h : IsAlignment m) : m ∣ 8 := by
  rcases h with rfl | rfl | rfl | rfl <;> decide

/-- The integer types, addresses among them. -/
inductive IntegerKind where
  | number (width : IntegerWidth) (isSigned : Bool)
  | address
  deriving DecidableEq, Repr

namespace IntegerKind

variable (p : UInt32) (k : IntegerKind)

def kind : IntegerKind → BasicKind
  | number width isSigned => width.kind isSigned
  | address => .uintptr

theorem kind_ne_invalid : k.kind ≠ .invalid := by
  cases k with
  | number width isSigned => cases width <;> cases isSigned <;> exact nofun
  | address => exact nofun

def term : TypeTerm := .basic ⟨k.kind, k.kind_ne_invalid⟩

/-- The bytes of an integer, given those of a pointer. -/
def width : IntegerKind → UInt32
  | number width _ => width.bytes p
  | address => p

/-- An integer by its bits. -/
abbrev Object : Type := BitVec (8 * (k.width p).toNat)

def encode (v : k.Object p) : List UInt8 := littleEndianBytes (k.width p).toNat v.toNat

/-- A value is an integer, whatever the confidence in it. -/
def Shows : (k : IntegerKind) → k.Object p → Value → Prop
  | number width isSigned, v, value => (PlainType.integer width isSigned).Shows p v value
  | address, v, value => value.data = .pointer (UInt64.ofNat (BitVec.toNat v))

variable {p k}

theorem Shows.isBad {v : k.Object p} {value : Value} (h : k.Shows p v value) :
    value.isBad = false := by
  cases k with
  | number width isSigned => exact PlainType.Shows.isBad h
  | address => rw [Value.isBad, h]

theorem isAlignment (wide : p = 4 ∨ p = 8) (k : IntegerKind) : IsAlignment (k.width p).toNat := by
  cases k with
  | number width isSigned => exact width.isAlignment wide
  | address => exact isAlignment_word wide

theorem size_term (wide : p = 4 ∨ p = 8) (k : IntegerKind) :
    k.term.size p = (k.width p).toNat := by
  rcases wide with rfl | rfl
  · cases k with
    | number width isSigned => cases width <;> cases isSigned <;> rfl
    | address => rfl
  · cases k with
    | number width isSigned => cases width <;> cases isSigned <;> rfl
    | address => rfl

theorem align_term (wide : p = 4 ∨ p = 8) (k : IntegerKind) :
    k.term.align p = (k.width p).toNat := by
  rcases wide with rfl | rfl
  · cases k with
    | number width isSigned => cases width <;> cases isSigned <;> rfl
    | address => rfl
  · cases k with
    | number width isSigned => cases width <;> cases isSigned <;> rfl
    | address => rfl

theorem stride_term (wide : p = 4 ∨ p = 8) (k : IntegerKind) :
    k.term.stride p = (k.width p).toNat := by
  rw [stride, k.align_term wide, k.size_term wide]
  exact nextMultiple_of_dvd (k.isAlignment wide).pos (Nat.dvd_refl _)

theorem size_array (wide : p = 4 ∨ p = 8) (n : Nat) (k : IntegerKind) :
    (array n k.term).size p = n * (k.width p).toNat := by
  rw [size, ← stride, k.stride_term wide]

end IntegerKind

/-- Of things that follow each other at a distance, the first one and those behind it. -/
theorem forall_places_cons {α : Type} {P : α → Nat → Prop} {x : α} {xs : List α}
    {base distance : Nat}
    (all : ∀ (i : Nat) a, (x :: xs)[i]? = some a → P a (base + i * distance)) :
    P x base ∧ ∀ (i : Nat) a, xs[i]? = some a → P a (base + distance + i * distance) := by
  constructor
  · have first := all 0 x rfl
    rwa [Nat.zero_mul, Nat.add_zero] at first
  · intro i a mem
    have later := all (i + 1) a mem
    rwa [Nat.succ_mul, Nat.add_comm (i * _), ← Nat.add_assoc] at later

namespace Extract

/-- Bytes lie at an address. Pointers reach all of them, and reading them gives them. -/
structure Source.Stores (s : Source) (address : Nat) (bytes : List UInt8) : Prop where
  inside : address + bytes.length ≤ 2 ^ (8 * s.pointerWidth.toNat)
  read : s.memory.readBytes (UInt64.ofNat address) (UInt64.ofNat bytes.length) =
    .ok bytes.toArray

/-- Bytes lie where a block is shown that holds them. -/
theorem Source.stores_of_shows {s : Source} {base place : Nat} {block : Bytes} {bytes : List UInt8}
    (inside : base + block.size ≤ 2 ^ (8 * s.pointerWidth.toNat)) (small : block.size < 2 ^ 64)
    (shown : s.memory.Shows (UInt64.ofNat base) block) (holds : block.Holds place bytes)
    (some : bytes ≠ []) : s.Stores (base + place) bytes := by
  have part := holds.le_size some
  have positive := List.length_pos_iff.mpr some
  have length : (UInt64.ofNat bytes.length).toNat = bytes.length := by
    rw [UInt64.toNat_ofNat', Nat.mod_eq_of_lt (by omega)]
  have read := shown place (UInt64.ofNat bytes.length) (by omega) (by omega)
  refine ⟨by omega, ?_⟩
  rw [UInt64.ofNat_add, read, length]
  refine congrArg Except.ok (Array.toList_inj.mp ?_)
  rw [Bytes.toList_slice, holds.take]

theorem ofNat_mod_eq_zero {m n : Nat} (alignment : IsAlignment m) (dvd : m ∣ n) :
    UInt64.ofNat n % UInt64.ofNat m = 0 := by
  apply UInt64.toNat_inj.mp
  rw [UInt64.toNat_mod, alignment.toNat_ofNat, UInt64.toNat_ofNat',
    Nat.mod_mod_of_dvd _ alignment.dvd_word]
  exact Nat.mod_eq_zero_of_dvd dvd

theorem ofNat_ne_zero {n : Nat} (nonzero : n ≠ 0) (small : n < 2 ^ 64) : UInt64.ofNat n ≠ 0 := by
  intro zero
  have same := congrArg UInt64.toNat zero
  rw [UInt64.toNat_ofNat', Nat.mod_eq_of_lt small] at same
  exact nonzero same

section Numbers

variable {s : Source} {address : Nat} {bytes : List UInt8}

theorem pow_word : 256 ^ s.pointerWidth.toNat = 2 ^ (8 * s.pointerWidth.toNat) :=
  (Nat.pow_mul 2 8 _).symm

variable (wide : s.pointerWidth = 4 ∨ s.pointerWidth = 8)

include wide

theorem pow_word_le : 2 ^ (8 * s.pointerWidth.toNat) ≤ 2 ^ 64 :=
  Nat.pow_le_pow_right (by decide) (Nat.mul_le_mul_left 8 (isAlignment_word wide).le_eight)

/-- Words have at least 32 bits. -/
theorem le_pow_word : 2 ^ 32 ≤ 2 ^ (8 * s.pointerWidth.toNat) := by
  rcases wide with eq | eq <;> rw [eq] <;> decide

theorem Source.Stores.fits (h : s.Stores address bytes) (some : 0 < bytes.length)
    (short : bytes.length < 2 ^ 64) :
    fitsAddressSpace (UInt64.ofNat address) (UInt64.ofNat bytes.length) s.pointerWidth := by
  have inside := h.inside
  have most := pow_word_le wide
  have start : (UInt64.ofNat address).toNat = address := by
    rw [UInt64.toNat_ofNat', Nat.mod_eq_of_lt (by omega)]
  have length : (UInt64.ofNat bytes.length).toNat = bytes.length := by
    rw [UInt64.toNat_ofNat', Nat.mod_eq_of_lt short]
  rw [fitsAddressSpace_iff (isAlignment_word wide).pos (isAlignment_word wide).le_eight, start,
    length]
  exact ⟨some, inside⟩

theorem Source.Stores.readBytes? (h : s.Stores address bytes) (some : 0 < bytes.length)
    (short : bytes.length < 2 ^ 64) :
    s.readBytes? (UInt64.ofNat address) (UInt64.ofNat bytes.length) = .some bytes.toArray := by
  rw [Source.readBytes?, if_pos (h.fits wide some short), h.read]
  rfl

/-- A number is read from the bytes that lie at its address. -/
theorem Source.Stores.readUnsigned? (h : s.Stores address bytes) {width : UInt32}
    (length : bytes.length = width.toNat) (some : 0 < width.toNat) (few : width.toNat ≤ 8) :
    s.readUnsigned? (UInt64.ofNat address) width =
      .some (UInt64.ofNat (littleEndian bytes)) := by
  have same : width.toUInt64 = UInt64.ofNat bytes.length := by
    apply UInt64.toNat_inj.mp
    rw [UInt32.toNat_toUInt64, length, UInt64.toNat_ofNat', Nat.mod_eq_of_lt (by omega)]
  have read : s.memory.readUnsigned (UInt64.ofNat address) width =
      .ok (UInt64.ofNat (littleEndian bytes)) :=
    (Memory.readUnsigned_eq_ok_iff some few).mpr ⟨bytes.toArray, same ▸ h.read, length, rfl⟩
  rw [Source.readUnsigned?, same, if_pos (h.fits wide (by omega) (by omega)), read]
  rfl

theorem wordAt_one : s.wordAt (UInt64.ofNat address) 1 =
    UInt64.ofNat (address + s.pointerWidth.toNat) := by
  rw [Source.wordAt, UInt32.one_mul, ofNat_toNat_word wide, UInt64.ofNat_add]

theorem wordAt_two : s.wordAt (UInt64.ofNat address) 2 =
    UInt64.ofNat (address + 2 * s.pointerWidth.toNat) := by
  have words : (2 * s.pointerWidth).toUInt64 = UInt64.ofNat (2 * s.pointerWidth.toNat) := by
    rcases wide with eq | eq <;> rw [eq] <;> rfl
  rw [Source.wordAt, words, UInt64.ofNat_add]

/-- A pointer sized number is read. -/
theorem Source.Stores.readWord? {n : Nat}
    (h : s.Stores address (littleEndianBytes s.pointerWidth.toNat n))
    (fits : n < 2 ^ (8 * s.pointerWidth.toNat)) :
    s.readWord? (UInt64.ofNat address) = some (UInt64.ofNat n) := by
  have pointer := isAlignment_word wide
  rw [Source.readWord?, h.readUnsigned? wide (length_littleEndianBytes _ _) pointer.pos
    pointer.le_eight, littleEndian_littleEndianBytes, pow_word, Nat.mod_eq_of_lt fits]

/-- An integer is read from its bytes. -/
theorem Source.Stores.readInteger? {k : IntegerKind} {v : k.Object s.pointerWidth}
    (h : s.Stores address (k.encode s.pointerWidth v)) :
    s.readUnsigned? (UInt64.ofNat address) (k.width s.pointerWidth) =
      some (UInt64.ofNat v.toNat) := by
  have alignment := k.isAlignment wide
  have fits : v.toNat < 256 ^ (k.width s.pointerWidth).toNat := by
    rw [← Nat.pow_mul 2 8]
    exact v.isLt
  rw [h.readUnsigned? wide (length_littleEndianBytes _ _) alignment.pos alignment.le_eight,
    IntegerKind.encode, littleEndian_littleEndianBytes, Nat.mod_eq_of_lt fits]

end Numbers

section Parts

variable {s : Source} {version : VersionBound} {t : GoType} {address n : Nat} {depth : UInt32}

/-- A value is an array of values, one for each member of a list. -/
def ShowsArray {α : Type} (R : α → Value → Prop) (xs : List α) (value : Value) : Prop :=
  ∃ vs, value.data = .array vs ∧ List.Forall₂ R xs vs

theorem ShowsArray.isBad {α : Type} {R : α → Value → Prop} {xs : List α} {value : Value}
    (h : ShowsArray R xs value) : value.isBad = false := by
  obtain ⟨vs, data, _⟩ := h
  rw [Value.isBad, data]

/-- What holds of the readings of all types that are what a term says. -/
def Reads (s : Source) (version : VersionBound) (n : Nat) (depth : UInt32) (term : TypeTerm)
    (address : Nat) (post : Value → Prop) : Prop :=
  ∀ t, Denotes s.graph version s.pointerWidth term t →
    Gives (within s n t (UInt64.ofNat address) depth) post

variable (wide : s.pointerWidth = 4 ∨ s.pointerWidth = 8)

include wide

/-- An integer that lies at an address is read. -/
theorem reads_integer {k : IntegerKind} {v : k.Object s.pointerWidth}
    (h : s.Stores address (k.encode s.pointerWidth v)) :
    Reads s version (n + 1) depth k.term address (k.Shows s.pointerWidth v) := by
  intro t denotes
  have read := h.readInteger? wide
  cases denotes with
  | basic heads shape =>
      show Gives (step s (within s n) t _ depth) _
      rw [step, shape]
      cases k with
      | number width isSigned =>
          show Gives (pure (basic s (width.kind isSigned) _)) _
          rw [basic_integer]
          exact gives_pure (shows_integer wide read)
      | address =>
          show Gives (pure (word s _)) _
          have read : s.readWord? (UInt64.ofNat address) = some (UInt64.ofNat (BitVec.toNat v)) :=
            read
          rw [word, read]
          exact gives_pure rfl

/-- An address that lies at an address is read. -/
theorem reads_word {target : Nat}
    (h : s.Stores address (littleEndianBytes s.pointerWidth.toNat target))
    (fits : target < 2 ^ (8 * s.pointerWidth.toNat)) :
    Reads s version (n + 1) depth uintptr address fun value =>
      value.data = .pointer (UInt64.ofNat target) := by
  intro t denotes
  cases denotes with
  | basic heads shape =>
      show Gives (step s (within s n) t _ depth) _
      rw [step, shape]
      show Gives (pure (word s _)) _
      rw [word, h.readWord? wide fits]
      exact gives_pure rfl

/-- An unsigned number is read as the number that its bytes write. -/
theorem reads_unsigned (width : IntegerWidth) {bytes : List UInt8} (h : s.Stores address bytes)
    (length : bytes.length = (width.bytes s.pointerWidth).toNat) :
    Reads s version (n + 1) depth (IntegerKind.number width false).term address fun value =>
      value.data = .integer (UInt64.ofNat (littleEndian bytes)) false := by
  intro t denotes
  have alignment := width.isAlignment wide
  cases denotes with
  | basic heads shape =>
      show Gives (step s (within s n) t _ depth) _
      rw [step, shape]
      show Gives (pure (basic s (width.kind false) _)) _
      rw [basic_integer, integer, h.readUnsigned? wide length alignment.pos alignment.le_eight]
      exact gives_pure rfl

/-- An array all of whose elements are read. -/
theorem reads_array {α : Type} {R : α → Value → Prop} {e : TypeTerm} {xs : List α} {count : Nat}
    (sound : ∀ x v, R x v → v.isBad = false) (deep : depth ≠ 0) (length : xs.length = count)
    (dvd : e.align s.pointerWidth ∣ address)
    (each : ∀ (i : Nat) x, xs[i]? = some x →
      Reads s version n (depth - 1) e (address + i * e.stride s.pointerWidth) (R x)) :
    Reads s version (n + 1) depth (.array count e) address (ShowsArray R xs) := by
  intro t denotes
  cases denotes with
  | @array _ _ _ te _ _ length' heads shape size known denotes =>
      have alignment := e.isAlignment wide
      have padded := denotes.heads.roundUp wide
      have fits : fitsArray te length' t.size (UInt64.ofNat address) = true := by
        rw [fitsArray, Bool.and_eq_true, beq_iff_eq, beq_iff_eq, padded, denotes.heads.align,
          ofNat_mod_eq_zero alignment dvd, heads.size, TypeTerm.size, Nat.mul_comm,
          UInt64.ofNat_mul, ← size, UInt64.ofNat_toNat]
        exact ⟨rfl, rfl⟩
      show Gives (step s (within s n) t _ depth) _
      rw [step, shape]
      dsimp only
      rw [known]
      apply gives_arrayOf sound fits deep (length.trans size.symm)
      intro i x mem
      rw [padded, ← UInt64.ofNat_mul, ← UInt64.ofNat_add]
      exact each i x mem te denotes

/-- An array of integers. -/
theorem reads_integers {α : Type} {k : IntegerKind} {xs : List α} {count : Nat}
    {f : α → k.Object s.pointerWidth} (deep : depth ≠ 0) (length : xs.length = count)
    (dvd : (k.width s.pointerWidth).toNat ∣ address)
    (each : ∀ (i : Nat) x, xs[i]? = some x →
      s.Stores (address + i * (k.width s.pointerWidth).toNat) (k.encode s.pointerWidth (f x))) :
    Reads s version (n + 2) depth (.array count k.term) address
      (ShowsArray (fun x => k.Shows s.pointerWidth (f x)) xs) := by
  apply reads_array wide (fun _ _ shows => shows.isBad) deep length
  · rwa [k.align_term wide]
  · intro i x mem
    rw [k.stride_term wide]
    exact reads_integer wide (each i x mem)

omit wide in
/-- The fields of a struct, each with what holds of its readings. No reading of a field is bad. -/
def ReadFields (s : Source) (version : VersionBound) (n : Nat) (depth : UInt32) (address : Nat) :
    (start : Nat) → List (FieldName × TypeTerm) → List (Value → Prop) → Prop
  | _, [], posts => posts = []
  | start, (_, type) :: rest, posts =>
    ∃ post others, posts = post :: others ∧ (∀ value, post value → value.isBad = false) ∧
      Reads s version n depth type
        (address + nextMultiple start (type.align s.pointerWidth)) post ∧
      ReadFields s version n depth address
        (nextMultiple start (type.align s.pointerWidth) + type.size s.pointerWidth) rest others

omit wide in
theorem gives_readFields {fields : List (FieldName × TypeTerm)}
    {declared : List (Field (TypeRef GoType))} {start : Nat} {posts : List (Value → Prop)}
    (denote : DenoteFields s.graph version s.pointerWidth start fields declared)
    (all : ReadFields s version n depth address start fields posts) :
    Gives (Extract.fields s (within s n) (UInt64.ofNat address) depth declared) fun found =>
      found.map Prod.fst = declared.map Field.name ∧
        List.Forall₂ (fun post value => post value) posts (found.map Prod.snd) := by
  induction fields generalizing declared start posts with
  | nil =>
      cases denote
      cases all
      exact gives_pure ⟨rfl, .nil⟩
  | cons f rest ih =>
      cases denote with
      | @cons _ name type t r _ others known denotes later =>
          obtain ⟨post, posts, rfl, sound, here, behind⟩ := all
          have first := here t denotes
          rw [UInt64.ofNat_add] at first
          apply (gives_fields_cons known sound first (ih later behind)).mono
          rintro _ ⟨v, found, rfl, good, named, shown⟩
          exact ⟨congrArg (name.text :: ·) named, .cons good shown⟩

omit wide in
/-- A struct all of whose fields are read. -/
theorem reads_struct {fields : List (FieldName × TypeTerm)} {posts : List (Value → Prop)}
    (deep : depth ≠ 0) (all : ReadFields s version n (depth - 1) address 0 fields posts) :
    Reads s version (n + 1) depth (.struct fields) address fun value =>
      ∃ vs, value.data = .struct (fields.map fun f => f.1.text) vs ∧
        List.Forall₂ (fun post value => post value) posts vs := by
  intro t denotes
  cases denotes with
  | struct heads shape denote =>
      show Gives (step s (within s n) t _ depth) _
      rw [step, shape, ← denote.names]
      exact gives_struct deep (gives_readFields denote all)

end Parts

theorem ne_zero_of_le {depth : UInt32} (deep : 1 ≤ depth.toNat) : depth ≠ 0 := by
  rintro rfl
  exact absurd deep (by decide)

/-- A depth may grow by two levels. -/
theorem add_ne_zero {depth levels : UInt32} (some : 0 < levels.toNat) (few : levels.toNat ≤ 2)
    (shallow : depth.toNat ≤ 2 ^ 32 - 3) : depth + levels ≠ 0 := by
  intro zero
  have same := congrArg UInt32.toNat zero
  rw [UInt32.toNat_add, Nat.mod_eq_of_lt (by omega)] at same
  exact absurd same (Nat.ne_of_gt (Nat.add_pos_right _ some))

theorem gives_noteIf_false {e : Event} : Gives (noteIf false e) fun _ => True := gives_pure trivial

section Entries

variable {p : UInt32} {k v : IntegerKind}

variable (p k v) in
abbrev Entry : Type := k.Object p × v.Object p

variable (p k v) in
/-- A place where an entry may be kept. -/
structure Slot where
  /-- The byte that tells whether an entry is there. -/
  mark : UInt8
  key : k.Object p
  elem : v.Object p

/-- The entries of the slots with certain bytes, in the order of the slots. -/
def entriesOf (taken : UInt8 → Bool) (slots : List (Slot p k v)) : List (Entry p k v) :=
  (slots.filter fun slot => taken slot.mark).map fun slot => (slot.key, slot.elem)

theorem entriesOf_cons (taken : UInt8 → Bool) (slot : Slot p k v) (slots : List (Slot p k v)) :
    entriesOf taken (slot :: slots) =
      if taken slot.mark then (slot.key, slot.elem) :: entriesOf taken slots
      else entriesOf taken slots := by
  rw [entriesOf, List.filter_cons]
  split <;> rfl

variable (p) in
/-- Values are the key and the element of an entry. -/
def ShowsEntry (entry : Entry p k v) (found : Value × Value) : Prop :=
  k.Shows p entry.1 found.1 ∧ v.Shows p entry.2 found.2

variable (p) in
/-- A value is the map of entries, in their order. -/
def ShowsMap (entries : List (Entry p k v)) (value : Value) : Prop :=
  ∃ found : Entries, value.data = .map (found.map Prod.fst) (found.map Prod.snd) ∧
    List.Forall₂ (ShowsEntry p) entries found

variable (p) in
/-- Entries are found, in their order. -/
def Finds (entries : List (Entry p k v)) (found : Option Entries) : Prop :=
  ∃ es, found = .some es ∧ List.Forall₂ (ShowsEntry p) entries es

theorem Finds.shows_ofFound {entries : List (Entry p k v)} {found : Option Entries}
    (confidence : Float) (finds : Finds p entries found) (some : 0 < entries.length) :
    ShowsMap p entries (ofFound found confidence) := by
  obtain ⟨_, rfl, shown⟩ := finds
  cases shown with
  | nil => exact absurd some (Nat.lt_irrefl 0)
  | cons first rest => exact ⟨_, rfl, .cons first rest⟩

theorem finds_nil : Finds p ([] : List (Entry p k v)) (some []) := ⟨[], rfl, .nil⟩

/-- What is found in two parts, one after the other. What the second part is may depend on what was
found in the first one. -/
theorem gives_append {first : Reading (Option Entries)} {later : Entries → Reading (Option Entries)}
    {xs ys : List (Entry p k v)} (here : Gives first (Finds p xs))
    (there : ∀ es, List.Forall₂ (ShowsEntry p) xs es → Gives (later es) (Finds p ys)) :
    Gives (do
      match ← first with
      | none => pure none
      | some es =>
        match ← later es with
        | none => pure none
        | some others => pure (some (es ++ others))) (Finds p (xs ++ ys)) := by
  apply here.bind
  rintro _ ⟨es, rfl, shown⟩
  apply (there es shown).bind
  rintro _ ⟨others, rfl, behind⟩
  exact gives_pure ⟨es ++ others, rfl, List.rel_append shown behind⟩

end Entries

section Maps

variable {s : Source} {version : VersionBound} {k v : IntegerKind}

/-- The text of a map type is read as a type whose objects are read by the decoder of the version,
which is given the type of the buckets or groups. -/
theorem exists_mapReader (wide : s.pointerWidth = 4 ∨ s.pointerWidth = 8)
    (faithful : Faithful s.graph version s.pointerWidth (.map k.term v.term)) :
    ∃ t type, (parse s.graph version s.pointerWidth (map k.term v.term).text).bind
        s.graph.lookup? = some t ∧
      Denotes s.graph version s.pointerWidth (bucket version k.term v.term) type ∧
      ∀ address depth, reader s t address depth =
        if version.swissMaps then swissMap s (within s (limit - 1)) type address depth
        else legacyMap s (within s (limit - 1)) type address depth := by
  obtain ⟨handle, t, parsed, known, denotes⟩ :=
    isRead wide (.map k.term v.term) faithful (countable_map_basic wide)
  cases denotes with
  | @map _ _ _ _ _ type _ _ _ heads shape _ _ _ _ found denotes =>
      refine ⟨t, type, ?_, denotes, ?_⟩
      · rw [parsed]
        exact known
      · intro address depth
        show step s (within s (limit - 1)) t address depth = _
        rw [step, shape]
        dsimp only
        rw [found]
        dsimp only
        rw [heads.version]

end Maps

end Extract

end GoInspect
