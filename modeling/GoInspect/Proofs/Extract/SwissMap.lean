import GoInspect.Proofs.Extract.Stored

/-!
# Maps of groups

How a map of integers lies in memory from 1.24 on: groups of eight slots each, and in front of the
slots one control byte for each of them. A small map is one group. A larger one has a directory of
tables, in which a table that was not split as often as others stands several times, and every table
has a row of groups. A map that lies there is read as its full slots, and each table once.
-/

namespace GoInspect

open TypeSyntax TypeTerm Extract

namespace SwissMap

section Layout

variable (p : UInt32) (k v : IntegerKind)

/-- The slots of a group. -/
abbrev Group : Type := Vector (Slot p k v) 8

/-- A slot is full if the top bit of its control byte is clear. -/
def full (control : UInt8) : Bool := !control.toNat.testBit 7

variable {p k v} in
def Group.entries (group : Group p k v) : List (Entry p k v) := entriesOf full group.toList

/-- What the header of a map leads to: a group, or tables at the addresses in a directory. -/
inductive Content where
  | small (group : Group p k v)
  | directory (addresses : List Nat) (tables : (address : Nat) → List (Group p k v))

variable {p k v} in
/-- The entries of a map. Those of a table stand where the table is first mentioned. -/
def Content.entries : Content p k v → List (Entry p k v)
  | small group => group.entries
  | directory addresses tables =>
    addresses.eraseDups.flatMap fun address => (tables address).flatMap Group.entries

/-- The bytes that a slot has for the key, and as many again for the element. -/
def half : Nat := max (k.width p).toNat (v.width p).toNat

def groupSize : Nat := 8 + 8 * (2 * half p k v)

end Layout

section Memory

variable (s : Source) {k v : IntegerKind}

/-- A group lies at an address. -/
structure GroupAt (group : Group s.pointerWidth k v) (address : Nat) : Prop where
  aligned : 8 ∣ address
  controls : s.Stores address (group.toList.map Slot.mark)
  keys : ∀ (i : Nat) slot, group.toList[i]? = some slot →
    s.Stores (address + 8 + i * (2 * half s.pointerWidth k v)) (k.encode s.pointerWidth slot.key)
  elems : ∀ (i : Nat) slot, group.toList[i]? = some slot →
    s.Stores (address + 8 + i * (2 * half s.pointerWidth k v) + half s.pointerWidth k v)
      (v.encode s.pointerWidth slot.elem)

/-- A table lies at an address: it leads to its groups and has their number less one. -/
structure TableAt (groups : List (Group s.pointerWidth k v)) (first address : Nat) : Prop where
  some : 1 ≤ groups.length
  few : groups.length ≤ 128
  base : s.Stores (address + 8 + s.pointerWidth.toNat)
    (littleEndianBytes s.pointerWidth.toNat first)
  mask : s.Stores (address + 8 + 2 * s.pointerWidth.toNat)
    (littleEndianBytes s.pointerWidth.toNat (groups.length - 1))
  groups : ∀ (i : Nat) group, groups[i]? = .some group →
    GroupAt s group (first + i * groupSize s.pointerWidth k v)

/-- A directory lies at an address, no longer than directories that are read in full. The tables lie
where it says. -/
structure DirectoryAt (addresses : List Nat) (tables : Nat → List (Group s.pointerWidth k v))
    (address : Nat) : Prop where
  some : 1 ≤ addresses.length
  few : addresses.length ≤ s.settings.swissDirectoryCap.toNat
  cap : s.settings.swissDirectoryCap.toNat ≤ 65536
  stored : s.Stores address (addresses.flatMap (littleEndianBytes s.pointerWidth.toNat))
  tables : ∀ table ∈ addresses, ∃ first, TableAt s (tables table) first table

/-- What a map has lies where the header leads to. The header of a small map has no directory. -/
def ContentAt : Content s.pointerWidth k v → (address directoryLength : Nat) → Prop
  | .small group, address, directoryLength => directoryLength = 0 ∧ GroupAt s group address
  | .directory addresses tables, address, directoryLength =>
    directoryLength = addresses.length ∧ DirectoryAt s addresses tables address

/-- The header of a map lies at an address: how many entries there are, a seed, the address of the
group or the directory, and the length of the directory. -/
structure HeaderAt (length seed start directoryLength address : Nat) : Prop where
  length : s.Stores address (littleEndianBytes 8 length)
  seed : s.Stores (address + 8) (littleEndianBytes s.pointerWidth.toNat seed)
  start : s.Stores (address + 8 + s.pointerWidth.toNat)
    (littleEndianBytes s.pointerWidth.toNat start)
  directoryLength : s.Stores (address + 8 + 2 * s.pointerWidth.toNat)
    (littleEndianBytes s.pointerWidth.toNat directoryLength)

end Memory

variable {s : Source} {version : VersionBound} {k v : IntegerKind} {n : Nat} {depth : UInt32}

section Places

theorem nextMultiple_eq_max {n m : Nat} (hn : IsAlignment n) (hm : IsAlignment m) :
    nextMultiple n m = max n m := by
  rcases hn with rfl | rfl | rfl | rfl <;> rcases hm with rfl | rfl | rfl | rfl <;> rfl

theorem nextMultiple_max_add {n m : Nat} (hn : IsAlignment n) (hm : IsAlignment m) :
    nextMultiple (max n m + m) (max n m) = 2 * max n m := by
  rcases hn with rfl | rfl | rfl | rfl <;> rcases hm with rfl | rfl | rfl | rfl <;> rfl

variable {p : UInt32} (wide : p = 4 ∨ p = 8)

include wide

theorem isAlignment_half : IsAlignment (half p k v) :=
  (k.isAlignment wide).max (v.isAlignment wide)

theorem place_key : nextMultiple 0 (k.term.align p) = 0 :=
  nextMultiple_of_dvd (k.term.isAlignment wide).pos (Nat.dvd_zero _)

theorem place_elem : nextMultiple (0 + k.term.size p) (v.term.align p) = half p k v := by
  rw [k.size_term wide, v.align_term wide, Nat.zero_add]
  exact nextMultiple_eq_max (k.isAlignment wide) (v.isAlignment wide)

theorem align_slot : (slot k.term v.term).align p = half p k v := by
  have positive := (v.isAlignment wide).pos
  rw [slot, align, alignAll, alignAll, alignAll, k.align_term wide, v.align_term wide, half]
  omega

theorem size_slot : (slot k.term v.term).size p = 2 * half p k v := by
  have aligned := align_slot (k := k) (v := v) wide
  rw [slot, align] at aligned
  rw [slot, size, stop, stop, stop, place_key wide, place_elem wide, aligned, v.size_term wide]
  exact nextMultiple_max_add (k.isAlignment wide) (v.isAlignment wide)

theorem stride_slot : (slot k.term v.term).stride p = 2 * half p k v := by
  rw [TypeTerm.stride, size_slot wide, align_slot wide]
  exact nextMultiple_of_dvd (isAlignment_half wide).pos (Nat.dvd_mul_left _ 2)

theorem place_controls : nextMultiple 0 (uint64.align p) = 0 :=
  place_key (k := .number .eight false) wide

theorem place_slots : nextMultiple (0 + uint64.size p)
    ((array 8 (slot k.term v.term)).align p) = 8 := by
  have alignment := isAlignment_half (k := k) (v := v) wide
  have word : uint64.size p = 8 := (IntegerKind.number .eight false).size_term wide
  rw [align, align_slot wide, word]
  exact nextMultiple_of_dvd alignment.pos alignment.dvd_eight

omit wide in
theorem bucket_of_new (new : version.swissMaps = true) :
    TypeTerm.bucket version k.term v.term = .struct (groupFields k.term v.term) := by
  rw [TypeTerm.bucket, bucketFields, new]
  rfl

/-- Groups follow each other without a gap. -/
theorem size_group : (struct (groupFields k.term v.term)).size p = groupSize p k v := by
  have alignment := isAlignment_half (k := k) (v := v) wide
  have word : uint64.align p = 8 := (IntegerKind.number .eight false).align_term wide
  have slots : (array 8 (slot k.term v.term)).align p = half p k v := align_slot wide
  have all : alignAll p (groupFields k.term v.term) = 8 := by
    have most := alignment.le_eight
    rw [groupFields, alignAll, alignAll, alignAll, word, slots]
    omega
  have stride : nextMultiple ((slot k.term v.term).size p) ((slot k.term v.term).align p) =
      2 * half p k v := stride_slot wide
  rw [size, all, groupFields, stop, stop, stop, place_controls wide, place_slots wide, size, stride]
  exact nextMultiple_of_dvd (by decide) (Nat.dvd_add (Nat.dvd_refl 8) (Nat.dvd_mul_right 8 _))

end Places

section Groups

variable (wide : s.pointerWidth = 4 ∨ s.pointerWidth = 8)

/-- A value is a slot with a key and an element. -/
def ShowsSlot (slot : Slot s.pointerWidth k v) (value : Value) : Prop :=
  ∃ found, value.data = .struct [utf8 "key", utf8 "elem"] [found.1, found.2] ∧
    ShowsEntry s.pointerWidth (slot.key, slot.elem) found

def parts (group : Group s.pointerWidth k v) : List (Value → Prop) :=
  [fun value => value.data =
      .integer (UInt64.ofNat (littleEndian (group.toList.map Slot.mark))) false,
    ShowsArray ShowsSlot group.toList]

variable (s k v) in
/-- Groups that lie anywhere are read as their entries. -/
def ReadsGroups (read : Reader) (type : GoType) (depth : UInt32) : Prop :=
  ∀ {g : Group s.pointerWidth k v} {address : Nat}, GroupAt s g address →
    Gives (group read type depth (UInt64.ofNat address)) (Finds s.pointerWidth g.entries)

theorem ShowsSlot.isBad {slot : Slot s.pointerWidth k v} {value : Value}
    (h : ShowsSlot slot value) : value.isBad = false := by
  obtain ⟨_, data, _⟩ := h
  rw [Value.isBad, data]

include wide

/-- A slot is read, whether it is full or not. -/
theorem reads_slot (deep : depth ≠ 0) {slot : Slot s.pointerWidth k v} {address : Nat}
    (key : s.Stores address (k.encode s.pointerWidth slot.key))
    (elem : s.Stores (address + half s.pointerWidth k v) (v.encode s.pointerWidth slot.elem)) :
    Reads s version (n + 2) depth (TypeTerm.slot k.term v.term) address (ShowsSlot slot) := by
  intro t denotes
  have fields : ReadFields s version (n + 1) (depth - 1) address 0
      [(bucketName "key" (by decide), k.term), (bucketName "elem" (by decide), v.term)]
      [k.Shows s.pointerWidth slot.key, v.Shows s.pointerWidth slot.elem] := by
    refine ⟨_, _, rfl, fun _ shows => shows.isBad, ?_, _, _, rfl, fun _ shows => shows.isBad, ?_,
      rfl⟩
    · rw [place_key wide]
      exact reads_integer wide key
    · rw [place_key wide, place_elem wide]
      exact reads_integer wide elem
  apply (reads_struct deep fields t denotes).mono
  rintro value ⟨vs, data, shown⟩
  obtain _ | ⟨first, _ | ⟨second, _ | _⟩⟩ := shown
  exact ⟨(_, _), data, first, second⟩

/-- A group that lies at an address is read part by part. -/
theorem reads_group (new : version.swissMaps = true) (deep : depth ≠ 0) (next : depth + 1 ≠ 0)
    (last : depth + 2 ≠ 0) {group : Group s.pointerWidth k v} {address : Nat}
    (h : GroupAt s group address) :
    Reads s version (n + 4) (depth + 2) (TypeTerm.bucket version k.term v.term) address
      fun value => ∃ vs, value.data = .struct [utf8 "ctrl", utf8 "slots"] vs ∧
        List.Forall₂ (fun post value => post value) (parts group) vs := by
  have below : depth + 2 - 1 = depth + 1 := by
    have two : (2 : UInt32) = 1 + 1 := rfl
    rw [two, ← UInt32.add_assoc, UInt32.add_sub_cancel]
  have half := isAlignment_half (k := k) (v := v) wide
  rw [bucket_of_new new]
  apply reads_struct last
  -- The word and the array are read one level below the group, the slots one below that.
  rw [below]
  refine ⟨_, _, rfl, fun _ shows => ?_, ?_, _, _, rfl, fun _ shows => shows.isBad, ?_, rfl⟩
  · rw [Value.isBad, shows]
  · have length : (group.toList.map Slot.mark).length = 8 := by
      rw [List.length_map, Vector.length_toList]
    rw [place_controls wide]
    exact reads_unsigned wide .eight h.controls length
  · rw [place_controls wide, place_slots wide]
    apply reads_array wide (fun _ _ shows => shows.isBad) next Vector.length_toList
    · rw [align_slot wide]
      exact Nat.dvd_add (half.dvd_eight.trans h.aligned) half.dvd_eight
    · intro i slot mem
      rw [stride_slot wide, UInt32.add_sub_cancel]
      exact reads_slot wide deep (h.keys i slot mem) (h.elems i slot mem)

omit wide in
theorem controlByte_eq {group : Group s.pointerWidth k v} {i : Nat}
    {slot : Slot s.pointerWidth k v} (mem : group.toList[i]? = some slot) :
    controlByte (UInt64.ofNat (littleEndian (group.toList.map Slot.mark))) i =
      slot.mark.toNat := by
  have small : littleEndian (group.toList.map Slot.mark) < 2 ^ 64 := by
    have bound := littleEndian_lt (group.toList.map Slot.mark)
    rwa [List.length_map, Vector.length_toList] at bound
  have byte : (group.toList.map Slot.mark)[i]? = some slot.mark := by
    rw [List.getElem?_map, mem]
    rfl
  rw [controlByte, UInt64.toNat_ofNat', Nat.mod_eq_of_lt small]
  exact littleEndian_div_mod byte

omit wide in
/-- The test of a control byte is that of its top bit. -/
theorem decide_lt_eq_full (control : UInt8) : decide (control.toNat < 128) = full control := by
  have byte := control.toNat_lt
  rw [full, Nat.testBit_eq_decide_div_mod_eq, Bool.eq_iff_iff, decide_eq_true_iff,
    Bool.not_eq_true', decide_eq_false_iff_not]
  omega

omit wide in
theorem slotEntry?_eq {value : Value} {found : Value × Value}
    (data : value.data = .struct [utf8 "key", utf8 "elem"] [found.1, found.2]) :
    slotEntry? value = some found := by
  show (structFields? value).bind _ = _
  rw [structFields?, data]
  rfl

omit wide in
/-- The entries of slots are those whose control bytes tell so. The bytes are counted from a place
on. -/
theorem finds_mapM {slots : List (Slot s.pointerWidth k v)} {values : List Value}
    {control : UInt64} {place : Nat} (shown : List.Forall₂ ShowsSlot slots values)
    (bytes : ∀ (i : Nat) slot, slots[i]? = some slot →
      controlByte control (place + i) = slot.mark.toNat) :
    Finds s.pointerWidth (entriesOf full slots)
      (((values.zipIdx place).filter fun (_, i) => controlByte control i < 128).mapM
        fun (slot, _) => slotEntry? slot) := by
  induction shown generalizing place with
  | nil => exact finds_nil
  | @cons slot value slots values first _ ih =>
      have later : ∀ (i : Nat) slot, slots[i]? = some slot →
          controlByte control (place + 1 + i) = slot.mark.toNat := by
        intro i slot mem
        have next := bytes (i + 1) slot mem
        rwa [Nat.add_comm i, ← Nat.add_assoc] at next
      have test : decide (controlByte control place < 128) = full slot.mark := by
        rw [← decide_lt_eq_full, ← bytes 0 slot rfl, Nat.add_zero]
      have rest := ih later
      cases isFull : full slot.mark with
      | false =>
          simp only [List.zipIdx_cons, List.filter_cons, test, entriesOf_cons, isFull]
          exact rest
      | true =>
          obtain ⟨others, come, shown⟩ := rest
          obtain ⟨found, data, here⟩ := first
          refine ⟨found :: others, ?_, ?_⟩
          · simp only [List.zipIdx_cons, List.filter_cons, test, isFull, if_true, List.mapM_cons]
            rw [slotEntry?_eq data, come]
            rfl
          · rw [entriesOf_cons, isFull]
            exact .cons here shown

omit wide in
theorem groupEntries?_eq {value controls slots : Value} {control : UInt64} {elements : List Value}
    (data : value.data = .struct [utf8 "ctrl", utf8 "slots"] [controls, slots])
    (word : integerWord? controls = some control) (members : arrayElements? slots = some elements)
    (eight : elements.length = groupSlots) :
    groupEntries? value =
      (elements.zipIdx.filter fun (_, i) => controlByte control i < 128).mapM
        fun (slot, _) => slotEntry? slot := by
  show (structFields? value).bind _ = _
  rw [structFields?, data]
  show (integerWord? controls).bind (fun control => (arrayElements? slots).bind fun slots => _) = _
  rw [word, members]
  exact if_neg fun other => other eight

omit wide in
theorem finds_of_parts {group : Group s.pointerWidth k v} {value : Value} {vs : List Value}
    (data : value.data = .struct [utf8 "ctrl", utf8 "slots"] vs)
    (shown : List.Forall₂ (fun post value => post value) (parts group) vs) :
    Finds s.pointerWidth group.entries (groupEntries? value) := by
  obtain _ | ⟨first, _ | ⟨⟨elements, second, shown⟩, _ | _⟩⟩ := shown
  have eight : elements.length = groupSlots := by
    rw [← shown.length_eq, Vector.length_toList]
    rfl
  rw [groupEntries?_eq data (by rw [integerWord?, first]) (by rw [arrayElements?, second]) eight]
  apply finds_mapM shown
  intro i slot mem
  rw [Nat.zero_add]
  exact controlByte_eq mem

theorem reads_groups (new : version.swissMaps = true) (deep : depth ≠ 0) (next : depth + 1 ≠ 0)
    (last : depth + 2 ≠ 0) {type : GoType} (denotes : Denotes s.graph version s.pointerWidth
      (TypeTerm.bucket version k.term v.term) type) :
    ReadsGroups s k v (within s (n + 4)) type depth := by
  intro g address h
  apply (reads_group wide new deep next last h type denotes).bind
  rintro value ⟨vs, data, shown⟩
  exact gives_pure (finds_of_parts data shown)

end Groups

section Tables

theorem GroupAt.address_lt {g : Group s.pointerWidth k v} {address : Nat}
    (h : GroupAt s g address) : address < 2 ^ (8 * s.pointerWidth.toNat) := by
  have inside := h.controls.inside
  rw [List.length_map, Vector.length_toList] at inside
  omega

/-- What is left of addresses are the places where one is first mentioned. -/
theorem distinct_map {l : List Nat} {seen : Std.TreeSet UInt64} (small : ∀ a ∈ l, a < 2 ^ 64) :
    distinct seen (l.map UInt64.ofNat) =
      ((l.filter fun a => !seen.contains (UInt64.ofNat a)).eraseDups).map UInt64.ofNat := by
  induction l generalizing seen with
  | nil => rfl
  | cons a rest ih =>
      obtain ⟨here, behind⟩ := List.forall_mem_cons.mp small
      rw [List.map_cons, distinct]
      cases known : seen.contains (UInt64.ofNat a) with
      | true =>
          rw [if_pos rfl, ih behind, List.filter_cons, known, Bool.not_true,
            if_neg Bool.false_ne_true]
      | false =>
          -- The first address is seen from now on, which takes out of the rest what `eraseDups`
          -- does.
          have others : (rest.filter fun b => !(seen.insert (UInt64.ofNat a)).contains
              (UInt64.ofNat b)) = (rest.filter fun b => !seen.contains (UInt64.ofNat b)).filter
                fun b => !b == a := by
            rw [List.filter_filter]
            apply List.filter_congr
            intro b mem
            have same : compare (UInt64.ofNat a) (UInt64.ofNat b) = .eq ↔ b = a := by
              rw [Std.LawfulEqCmp.compare_eq_iff_eq, ← UInt64.toNat_inj, UInt64.toNat_ofNat',
                UInt64.toNat_ofNat', Nat.mod_eq_of_lt here, Nat.mod_eq_of_lt (behind b mem),
                eq_comm]
            rw [Std.TreeSet.contains_insert, Bool.not_or, Bool.eq_iff_iff, Bool.and_eq_true,
              Bool.and_eq_true, Bool.not_eq_true', beq_eq_false_iff_ne, Bool.not_eq_true',
              Bool.not_eq_true', beq_eq_false_iff_ne, ne_eq, ne_eq, same]
          rw [if_neg Bool.false_ne_true, List.filter_cons, known, Bool.not_false, if_pos rfl,
            List.eraseDups_cons, List.map_cons, ih behind, others]

/-- Nothing is known before the first address. -/
theorem distinct_empty {l : List Nat} (small : ∀ a ∈ l, a < 2 ^ 64) :
    distinct ∅ (l.map UInt64.ofNat) = l.eraseDups.map UInt64.ofNat := by
  have all : (l.filter fun a => !(∅ : Std.TreeSet UInt64).contains (UInt64.ofNat a)) = l := by
    apply List.filter_eq_self.mpr
    intro a _
    rw [Std.TreeSet.contains_emptyc, Bool.not_false]
  rw [distinct_map small, all]

/-- The addresses in a directory, as far as every one of them is read at its place. -/
theorem directoryEntries_eq (place : Nat) {data : Bytes} {p : UInt32} {addresses : List Nat}
    (read : ∀ (i : Nat) address, addresses[i]? = some address →
      data.read? (UInt64.ofNat (place + i) * p.toUInt64) p.toNat = some (UInt64.ofNat address)) :
    directoryEntries data p addresses.length (UInt64.ofNat place) =
      addresses.map UInt64.ofNat := by
  induction addresses generalizing place with
  | nil => rfl
  | cons address rest ih =>
      have later : directoryEntries data p rest.length (UInt64.ofNat place + 1) =
          rest.map UInt64.ofNat := by
        have next : UInt64.ofNat place + 1 = UInt64.ofNat (place + 1) := (UInt64.ofNat_add ..).symm
        rw [next]
        apply ih
        intro i address mem
        rw [Nat.add_assoc, Nat.add_comm 1]
        exact read (i + 1) address mem
      have first := read 0 address rfl
      rw [Nat.add_zero] at first
      rw [List.length_cons, directoryEntries, first, later, List.map_cons]

/-- The addresses in a directory are read from its bytes. -/
theorem directoryEntries_bytes {p : UInt32} (wide : p = 4 ∨ p = 8) {addresses : List Nat}
    (few : addresses.length ≤ 65536) (fits : ∀ a ∈ addresses, a < 256 ^ p.toNat) :
    directoryEntries (addresses.flatMap (littleEndianBytes p.toNat)).toArray p addresses.length 0 =
      addresses.map UInt64.ofNat := by
  have word := isAlignment_word wide
  have most := Nat.mul_le_mul few word.le_eight
  apply directoryEntries_eq 0
  intro i address mem
  have whole : Bytes.Holds (addresses.flatMap (littleEndianBytes p.toNat)).toArray 0
      (addresses.flatMap (littleEndianBytes p.toNat)) := List.prefix_rfl
  have piece := whole.piece (length_littleEndianBytes _) mem
  rw [Nat.zero_add] at piece
  rw [ofNat_toNat_word wide, ← UInt64.ofNat_mul, Nat.zero_add]
  apply piece.read? word.pos (fits address (List.mem_of_getElem? mem))
  rw [List.size_toArray, length_flatMap_even (length_littleEndianBytes _)]
  omega

variable (wide : s.pointerWidth = 4 ∨ s.pointerWidth = 8)

include wide

theorem TableAt.address_lt {gs : List (Group s.pointerWidth k v)} {first address : Nat}
    (h : TableAt s gs first address) : address < 2 ^ (8 * s.pointerWidth.toNat) := by
  have inside := h.base.inside
  have positive := (isAlignment_word wide).pos
  omega

variable {read : Reader} {type : GoType}
  (size : type.size = UInt64.ofNat (groupSize s.pointerWidth k v))
  (each : ReadsGroups s k v read type depth)

include size each

omit wide in
/-- Groups that follow each other are read as their entries. -/
theorem gives_groups {gs : List (Group s.pointerWidth k v)} {first : Nat}
    (there : ∀ (i : Nat) group, gs[i]? = some group →
      GroupAt s group (first + i * groupSize s.pointerWidth k v)) :
    Gives (groups read type depth gs.length (UInt64.ofNat first))
      (Finds s.pointerWidth (gs.flatMap Group.entries)) := by
  induction gs generalizing first with
  | nil => exact gives_pure finds_nil
  | cons g rest ih =>
      obtain ⟨here, behind⟩ := forall_places_cons there
      rw [List.length_cons, groups, List.flatMap_cons]
      apply gives_append (each here)
      intro _ _
      rw [size, ← UInt64.ofNat_add]
      exact ih behind

/-- A table that lies at an address is read as the entries of its groups. -/
theorem gives_table {gs : List (Group s.pointerWidth k v)} {first address : Nat}
    (h : TableAt s gs first address) :
    Gives (table s read type depth (UInt64.ofNat address))
      (Finds s.pointerWidth (gs.flatMap Group.entries)) := by
  have some := h.some
  have few := h.few
  have least := le_pow_word wide
  have there := h.groups 0 gs[0] (List.getElem?_eq_getElem some)
  rw [Nat.zero_mul, Nat.add_zero] at there
  have behind : UInt64.ofNat (address + 8) = UInt64.ofNat address + 8 := UInt64.ofNat_add ..
  have base := h.base.readWord? wide there.address_lt
  have mask := h.mask.readWord? wide (by omega)
  have count : (UInt64.ofNat (gs.length - 1)).toNat = gs.length - 1 := by
    rw [UInt64.toNat_ofNat', Nat.mod_eq_of_lt (by omega)]
  have allowed : ¬maxGroups ≤ UInt64.ofNat (gs.length - 1) := by
    rw [UInt64.le_iff_toNat_le, count]
    show ¬128 ≤ gs.length - 1
    omega
  rw [← wordAt_one wide, behind] at base
  rw [← wordAt_two wide, behind] at mask
  unfold table
  rw [base, mask]
  dsimp only
  rw [if_neg allowed, count, Nat.sub_add_cancel some]
  exact gives_groups size each h.groups

/-- Tables are read one after another. -/
theorem gives_tables {contents : Nat → List (Group s.pointerWidth k v)} {addresses : List Nat}
    (there : ∀ table ∈ addresses, ∃ first, TableAt s (contents table) first table) :
    Gives (tables s read type depth (addresses.map UInt64.ofNat))
      (Finds s.pointerWidth
        (addresses.flatMap fun table => (contents table).flatMap Group.entries)) := by
  induction addresses with
  | nil => exact gives_pure finds_nil
  | cons address rest ih =>
      obtain ⟨⟨first, here⟩, behind⟩ := List.forall_mem_cons.mp there
      rw [List.map_cons, tables, List.flatMap_cons]
      apply gives_append (gives_table wide size each here)
      intro _ _
      exact ih behind

/-- A directory is read as the entries of its tables, those of each table once. -/
theorem gives_directory {contents : Nat → List (Group s.pointerWidth k v)} {addresses : List Nat}
    {start : Nat} (h : DirectoryAt s addresses contents start) :
    Gives (directory s read type depth (UInt64.ofNat start) (UInt64.ofNat addresses.length))
      (Finds s.pointerWidth (Content.directory addresses contents).entries) := by
  have word := isAlignment_word wide
  have small := Nat.mul_le_mul (h.few.trans h.cap) word.le_eight
  have some := Nat.mul_pos h.some word.pos
  have fits : ∀ a ∈ addresses, a < 2 ^ (8 * s.pointerWidth.toNat) := by
    intro a mem
    obtain ⟨first, there⟩ := h.tables a mem
    exact there.address_lt wide
  have length : (addresses.flatMap (littleEndianBytes s.pointerWidth.toNat)).length =
      addresses.length * s.pointerWidth.toNat :=
    length_flatMap_even (length_littleEndianBytes _)
  have bytes : directoryBytes s (UInt64.ofNat addresses.length) =
      UInt64.ofNat (addresses.flatMap (littleEndianBytes s.pointerWidth.toNat)).length := by
    rw [directoryBytes, ofNat_toNat_word wide, length, UInt64.ofNat_mul]
  have count : (UInt64.ofNat addresses.length).toNat = addresses.length := by
    have few := h.few.trans h.cap
    rw [UInt64.toNat_ofNat', Nat.mod_eq_of_lt (by omega)]
  have come := h.stored.readBytes? wide (by omega) (by omega)
  unfold directory
  rw [bytes, come, count]
  dsimp only
  rw [directoryEntries_bytes wide (h.few.trans h.cap) (pow_word ▸ fits),
    distinct_empty fun a mem => Nat.lt_of_lt_of_le (fits a mem) (pow_word_le wide)]
  have there : ∀ table ∈ addresses.eraseDups, ∃ first, TableAt s (contents table) first table :=
    fun table mem => h.tables table (List.mem_eraseDups.mp mem)
  apply (gives_tables wide size each there).bind
  intro found finds
  rw [if_pos (List.length_map ..)]
  exact gives_pure finds

end Tables

section Header

variable (wide : s.pointerWidth = 4 ∨ s.pointerWidth = 8)

include wide

/-- What the header leads to has an address, and the directory a length. -/
theorem ContentAt.lt {content : Content s.pointerWidth k v} {start directoryLength : Nat}
    (h : ContentAt s content start directoryLength) :
    start < 2 ^ (8 * s.pointerWidth.toNat) ∧ directoryLength < 2 ^ (8 * s.pointerWidth.toNat) := by
  have least := le_pow_word wide
  cases content with
  | small g =>
      obtain ⟨rfl, there⟩ := h
      exact ⟨there.address_lt, Nat.two_pow_pos _⟩
  | directory addresses contents =>
      obtain ⟨rfl, there⟩ := h
      have few := there.few.trans there.cap
      have inside := there.stored.inside
      have some := Nat.mul_pos there.some (isAlignment_word wide).pos
      rw [length_flatMap_even (length_littleEndianBytes _)] at inside
      constructor <;> omega

/-- The header is read. The seed may be anything. -/
theorem HeaderAt.reads {length seed start directoryLength address : Nat}
    (h : HeaderAt s length seed start directoryLength address) (lengthFits : length < 2 ^ 64)
    (startFits : start < 2 ^ (8 * s.pointerWidth.toNat))
    (directoryFits : directoryLength < 2 ^ (8 * s.pointerWidth.toNat)) :
    s.readUnsigned? (UInt64.ofNat address) 8 = some (UInt64.ofNat length) ∧
      (∃ word, s.readWord? (UInt64.ofNat address + 8) = some word) ∧
      s.readWord? (s.wordAt (UInt64.ofNat address + 8) 1) = some (UInt64.ofNat start) ∧
      s.readWord? (s.wordAt (UInt64.ofNat address + 8) 2) =
        some (UInt64.ofNat directoryLength) := by
  have word := isAlignment_word wide
  have behind : UInt64.ofNat (address + 8) = UInt64.ofNat address + 8 := UInt64.ofNat_add ..
  have first : s.readUnsigned? _ 8 = _ := h.length.readUnsigned? wide rfl (by decide) (by decide)
  have seeds := h.seed.readUnsigned? wide (length_littleEndianBytes _ _) word.pos word.le_eight
  have starts := h.start.readWord? wide startFits
  have lengths := h.directoryLength.readWord? wide directoryFits
  have small : length < 256 ^ 8 := lengthFits
  rw [littleEndian_littleEndianBytes, Nat.mod_eq_of_lt small] at first
  rw [behind] at seeds
  rw [← wordAt_one wide, behind] at starts
  rw [← wordAt_two wide, behind] at lengths
  exact ⟨first, ⟨_, seeds⟩, starts, lengths⟩

/-- A map that lies at an address is read as its entries. -/
theorem gives_swissMap {read : Reader} {type : GoType} (deep : depth ≠ 0)
    (size : type.size = UInt64.ofNat (groupSize s.pointerWidth k v))
    (each : ReadsGroups s k v read type depth)
    {content : Content s.pointerWidth k v} {length seed start directoryLength address : Nat}
    (header : HeaderAt s length seed start directoryLength address) (counts : 1 ≤ length)
    (fits : length < 2 ^ 64) (there : ContentAt s content start directoryLength)
    (some : 1 ≤ content.entries.length) :
    Gives (swissMap s read type (UInt64.ofNat address) depth)
      (ShowsMap s.pointerWidth content.entries) := by
  obtain ⟨startFits, directoryFits⟩ := there.lt wide
  obtain ⟨count, ⟨seedWord, seed⟩, base, entries⟩ :=
    header.reads wide fits startFits directoryFits
  unfold swissMap
  rw [count, seed, base, entries]
  dsimp only
  rw [if_neg deep, if_neg (ofNat_ne_zero (Nat.ne_of_gt counts) fits)]
  cases content with
  | small g =>
      obtain ⟨rfl, there⟩ := there
      have none : UInt64.ofNat 0 = 0 := rfl
      rw [if_pos none]
      apply (each there).bind
      intro found finds
      exact gives_pure (finds.shows_ofFound _ some)
  | directory addresses contents =>
      obtain ⟨rfl, there⟩ := there
      have small := Nat.lt_of_lt_of_le directoryFits (pow_word_le wide)
      have uncapped : ¬s.settings.swissDirectoryCap < UInt64.ofNat addresses.length := by
        rw [UInt64.lt_iff_toNat_lt, UInt64.toNat_ofNat', Nat.mod_eq_of_lt small]
        exact Nat.not_lt.mpr there.few
      have all : min (UInt64.ofNat addresses.length) s.settings.swissDirectoryCap =
          UInt64.ofNat addresses.length := if_pos (UInt64.not_lt.mp uncapped)
      rw [if_neg (ofNat_ne_zero (Nat.ne_of_gt there.some) small), decide_eq_false uncapped, all]
      apply gives_noteIf_false.bind
      rintro _ -
      apply (gives_directory wide size each there).bind
      intro found finds
      exact gives_pure (finds.shows_ofFound _ some)

end Header

section Blocks

/-- The bytes of a slot. Those behind a smaller key or element do not matter, here they are zero. -/
def slotBytes {p : UInt32} (slot : Slot p k v) : List UInt8 :=
  k.encode p slot.key ++ (List.replicate (half p k v - (k.width p).toNat) 0 ++
    (v.encode p slot.elem ++ List.replicate (half p k v - (v.width p).toNat) 0))

def groupBytes {p : UInt32} (g : Group p k v) : List UInt8 :=
  g.toList.map Slot.mark ++ g.toList.flatMap slotBytes

theorem length_slotBytes {p : UInt32} (slot : Slot p k v) :
    (slotBytes slot).length = 2 * half p k v := by
  have key : (k.width p).toNat ≤ half p k v := Nat.le_max_left _ _
  have elem : (v.width p).toNat ≤ half p k v := Nat.le_max_right _ _
  rw [slotBytes, List.length_append, List.length_append, List.length_append, List.length_replicate,
    List.length_replicate, IntegerKind.encode, IntegerKind.encode, length_littleEndianBytes,
    length_littleEndianBytes]
  omega

/-- Key and element of a slot stand at the begin of its halves. -/
theorem holds_slotBytes {p : UInt32} {block : Bytes} {place : Nat} {slot : Slot p k v}
    (holds : block.Holds place (slotBytes slot)) :
    block.Holds place (k.encode p slot.key) ∧
      block.Holds (place + half p k v) (v.encode p slot.elem) := by
  have key : (k.width p).toNat ≤ half p k v := Nat.le_max_left _ _
  obtain ⟨keys, holds⟩ := holds.append
  obtain ⟨_, holds⟩ := holds.append
  obtain ⟨elems, _⟩ := holds.append
  rw [List.length_replicate, IntegerKind.encode, length_littleEndianBytes, Nat.add_assoc,
    Nat.add_sub_cancel' key] at elems
  exact ⟨keys, elems⟩

/-- A group lies where a block with its bytes is shown. -/
theorem groupAt_of_shows (wide : s.pointerWidth = 4 ∨ s.pointerWidth = 8) {base place : Nat}
    {block : Bytes} {g : Group s.pointerWidth k v}
    (inside : base + block.size ≤ 2 ^ (8 * s.pointerWidth.toNat)) (small : block.size < 2 ^ 64)
    (shown : s.memory.Shows (UInt64.ofNat base) block) (aligned : 8 ∣ base + place)
    (holds : block.Holds place (groupBytes g)) : GroupAt s g (base + place) := by
  have lies {place : Nat} {bytes : List UInt8} (some : 0 < bytes.length)
      (there : block.Holds place bytes) : s.Stores (base + place) bytes :=
    Source.stores_of_shows inside small shown there (List.ne_nil_of_length_pos some)
  have length : (g.toList.map Slot.mark).length = 8 := by
    rw [List.length_map, Vector.length_toList]
  obtain ⟨controls, slots⟩ := holds.append
  rw [length] at slots
  refine ⟨aligned, lies (by omega) controls, ?_, ?_⟩
  · intro i slot mem
    have positive := Nat.lt_of_lt_of_eq (k.isAlignment wide).pos
      (length_littleEndianBytes _ slot.key.toNat).symm
    have piece := lies positive (holds_slotBytes (slots.piece length_slotBytes mem)).1
    rwa [← Nat.add_assoc, ← Nat.add_assoc] at piece
  · intro i slot mem
    have positive := Nat.lt_of_lt_of_eq (v.isAlignment wide).pos
      (length_littleEndianBytes _ slot.elem.toNat).symm
    have piece := lies positive (holds_slotBytes (slots.piece length_slotBytes mem)).2
    rwa [← Nat.add_assoc, ← Nat.add_assoc, ← Nat.add_assoc] at piece

end Blocks

/-- A map of integers is read as what lies in memory. Over every graph whose nodes are what their
names say, the text of the map type is read as a type. An object of that type whose header leads to
a group or to a directory that is read in full, whose tables have between 1 and 128 groups one after
another, and that has a full slot, is read at every depth as the full slots: tables in the order in
which the directory first mentions them, groups and slots in their order. Nothing is left behind. -/
theorem reader_content {depth : UInt32} (wide : s.pointerWidth = 4 ∨ s.pointerWidth = 8)
    (new : 24 ≤ version.min)
    (faithful : Faithful s.graph version s.pointerWidth (.map k.term v.term))
    {content : Content s.pointerWidth k v} {length seed start directoryLength address : Nat}
    (header : HeaderAt s length seed start directoryLength address) (counts : 1 ≤ length)
    (fits : length < 2 ^ 64) (there : ContentAt s content start directoryLength)
    (some : 1 ≤ content.entries.length) (deep : 1 ≤ depth.toNat)
    (shallow : depth.toNat ≤ 2 ^ 32 - 3) (trace : Trace) :
    ∃ t, (parse s.graph version s.pointerWidth (map k.term v.term).text).bind s.graph.lookup? =
        .some t ∧
      ∃ value, reader s t (UInt64.ofNat address) depth trace = .some (value, trace) ∧
        ShowsMap s.pointerWidth content.entries value := by
  have swiss : version.swissMaps = true := decide_eq_true (UInt32.le_iff_toNat_le.mpr new)
  have next : depth + 1 ≠ 0 := add_ne_zero (by decide) (by decide) shallow
  have last : depth + 2 ≠ 0 := add_ne_zero (by decide) (by decide) shallow
  obtain ⟨t, type, known, denotes, reads⟩ := exists_mapReader wide faithful
  have size : type.size = UInt64.ofNat (groupSize s.pointerWidth k v) := by
    rw [denotes.heads.size, bucket_of_new swiss, size_group wide]
  have read := gives_swissMap wide (ne_zero_of_le deep) size
    (reads_groups (n := limit - 5) wide swiss (ne_zero_of_le deep) next last denotes)
    header counts fits there some
  refine ⟨t, known, ?_⟩
  rw [reads, swiss]
  exact read trace

section Sample

/-- Keys of the sample are bytes. -/
def sampleKey : IntegerKind := .number .one false

/-- Elements of the sample are signed and two bytes wide. -/
def sampleElem : IntegerKind := .number .two true

def emptySlot : Slot 4 sampleKey sampleElem := ⟨0x80, 0#8, 0#16⟩

/-- A slot whose entry was deleted. -/
def deletedSlot : Slot 4 sampleKey sampleElem := ⟨0xFE, 9#8, 9#16⟩

def sampleGroup (place : Fin 8) (key : BitVec 8) (elem : BitVec 16) :
    Group 4 sampleKey sampleElem :=
  (Vector.replicate 8 emptySlot).set place ⟨0x12, key, elem⟩ |>.set 4 deletedSlot

def sampleTables (address : Nat) : List (Group 4 sampleKey sampleElem) :=
  if address = 0x1020 then [sampleGroup 7 1#8 10#16]
  else [sampleGroup 0 2#8 0xFFFF#16, sampleGroup 3 3#8 30#16]

/-- The header, a directory that mentions the first table twice, the tables, and their groups. -/
def sampleBlock : Bytes :=
  (littleEndianBytes 8 3 ++ littleEndianBytes 4 0xCAFE ++ littleEndianBytes 4 0x1014 ++
    littleEndianBytes 4 3 ++
    [0x1020, 0x1034, 0x1020].flatMap (littleEndianBytes 4) ++
    List.replicate 12 0 ++ littleEndianBytes 4 0x1048 ++ littleEndianBytes 4 0 ++
    List.replicate 12 0 ++ littleEndianBytes 4 0x1070 ++ littleEndianBytes 4 1 ++
    ((sampleTables 0x1020).flatMap groupBytes ++ (sampleTables 0x1034).flatMap groupBytes)).toArray

def sampleSource : Source where
  memory := (MappedMemory.map ⟨∅, 0⟩ 0x1000 sampleBlock).toMemory
  pointerWidth := 4
  graph := .empty
  settings := {}

/-- The sample is read back. -/
theorem reader_content_sample : ∃ t, (parse sampleSource.graph ⟨24, 24⟩ sampleSource.pointerWidth
      (map sampleKey.term sampleElem.term).text).bind sampleSource.graph.lookup? = some t ∧
    ∃ value, reader sampleSource t 0x1000 1 {} = some (value, {}) ∧
      ShowsMap 4 ([(1#8, 10#16), (2#8, 0xFFFF#16), (3#8, 30#16)] :
        List (Entry 4 sampleKey sampleElem)) value := by
  have shown : sampleSource.memory.Shows (UInt64.ofNat 0x1000) sampleBlock :=
    MappedMemory.shows_map (by decide +kernel)
  have inside : 0x1000 + sampleBlock.size ≤ 2 ^ (8 * sampleSource.pointerWidth.toNat) := by
    decide +kernel
  have small : sampleBlock.size < 2 ^ 64 := by decide +kernel
  have lies (place : Nat) {bytes : List UInt8} (there : sampleBlock.Holds place bytes)
      (some : bytes ≠ []) : sampleSource.Stores (0x1000 + place) bytes :=
    Source.stores_of_shows inside small shown there some
  have header : HeaderAt sampleSource 3 0xCAFE 0x1014 3 0x1000 := by
    refine ⟨lies 0 ?_ ?_, lies 8 ?_ ?_, lies 12 ?_ ?_, lies 16 ?_ ?_⟩ <;> decide +kernel
  have group (place : Nat) (g : Group 4 sampleKey sampleElem) (aligned : 8 ∣ 0x1000 + place)
      (holds : sampleBlock.Holds place (groupBytes g)) :
      GroupAt sampleSource g (0x1000 + place) :=
    groupAt_of_shows (.inl rfl) inside small shown aligned holds
  have first : TableAt sampleSource (sampleTables 0x1020) 0x1048 0x1020 := by
    refine ⟨by decide, by decide, lies 44 (by decide +kernel) (by decide),
      lies 48 (by decide +kernel) (by decide), ?_⟩
    rintro (_ | i) g mem
    · cases mem
      exact group 72 _ (by decide) (by decide +kernel)
    · cases mem
  have second : TableAt sampleSource (sampleTables 0x1034) 0x1070 0x1034 := by
    refine ⟨by decide, by decide, lies 64 (by decide +kernel) (by decide),
      lies 68 (by decide +kernel) (by decide), ?_⟩
    rintro (_ | _ | i) g mem
    · cases mem
      exact group 112 _ (by decide) (by decide +kernel)
    · cases mem
      exact group 152 _ (by decide) (by decide +kernel)
    · cases mem
  have directory : DirectoryAt sampleSource [0x1020, 0x1034, 0x1020] sampleTables 0x1014 := by
    refine ⟨by decide, by decide, by decide, lies 20 (by decide +kernel) (by decide), ?_⟩
    intro table mem
    obtain rfl | mem := List.mem_cons.mp mem
    · exact ⟨_, first⟩
    · obtain rfl | mem := List.mem_cons.mp mem
      · exact ⟨_, second⟩
      · rw [List.mem_singleton.mp mem]
        exact ⟨_, first⟩
  have content : ContentAt sampleSource (.directory [0x1020, 0x1034, 0x1020] sampleTables)
      0x1014 3 := ⟨rfl, directory⟩
  have new : 24 ≤ (⟨24, 24⟩ : VersionBound).min := by decide
  exact reader_content (.inl rfl) new (faithful_empty _) header (by decide) (by decide) content
    (by decide) (by decide) (by decide) {}

end Sample

end SwissMap

end GoInspect
