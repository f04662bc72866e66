import GoInspect.Proofs.Extract.Stored

/-!
# Maps of buckets

How a map of integers lies in memory up to 1.23: an array of buckets with eight slots each, and for
every bucket a list of overflow buckets that are linked by addresses. A map that lies there is read
as its taken slots, bucket by bucket, each bucket before its overflow buckets.
-/

namespace GoInspect

open TypeSyntax TypeTerm Extract

namespace LegacyMap

section Layout

variable (p : UInt32) (k v : IntegerKind)

/-- The slots of a bucket. -/
abbrev Bucket : Type := Vector (Slot p k v) 8

/-- The bytes 0, 1 and 4 mark slots without an entry. -/
def taken (mark : UInt8) : Bool := mark != 0 && mark != 1 && mark != 4

variable {p k v} in
def Bucket.entries (bucket : Bucket p k v) : List (Entry p k v) := entriesOf taken bucket.toList

/-- A bucket, and the overflow buckets that are linked to it. -/
structure Row where
  /-- The bucket in the array. -/
  main : Bucket p k v
  /-- The overflow buckets, in the order of the links. -/
  overflow : List (Bucket p k v)

variable {p k v} in
/-- The entries of a bucket and of its overflow buckets. -/
def Row.entries (row : Row p k v) : List (Entry p k v) :=
  row.main.entries ++ row.overflow.flatMap Bucket.entries

/-- Where the elements begin in a bucket. They come after eight bytes and eight keys. -/
def elemsPlace : Nat := 8 + 8 * (k.width p).toNat

/-- Where the address of the next overflow bucket stands in a bucket. -/
def linkPlace : Nat := elemsPlace p k + 8 * (v.width p).toNat

/-- What the addresses of buckets are multiples of. -/
def alignment : Nat := max (k.width p).toNat (max (v.width p).toNat p.toNat)

def stride : Nat := nextMultiple (linkPlace p k v + p.toNat) (alignment p k v)

end Layout

section Memory

variable (s : Source) {k v : IntegerKind}

/-- A bucket lies at an address, with a link to another one. -/
structure BucketAt (bucket : Bucket s.pointerWidth k v) (address link : Nat) : Prop where
  aligned : alignment s.pointerWidth k v ∣ address
  tops : ∀ (i : Nat) slot, bucket.toList[i]? = some slot → s.Stores (address + i) [slot.mark]
  keys : ∀ (i : Nat) slot, bucket.toList[i]? = some slot →
    s.Stores (address + 8 + i * (k.width s.pointerWidth).toNat)
      (k.encode s.pointerWidth slot.key)
  elems : ∀ (i : Nat) slot, bucket.toList[i]? = some slot →
    s.Stores (address + elemsPlace s.pointerWidth k + i * (v.width s.pointerWidth).toNat)
      (v.encode s.pointerWidth slot.elem)
  link : s.Stores (address + linkPlace s.pointerWidth k v)
    (littleEndianBytes s.pointerWidth.toNat link)

/-- Overflow buckets lie where links lead to. Zero ends them. -/
def ChainAt : List (Bucket s.pointerWidth k v) → (link : Nat) → Prop
  | [], link => link = 0
  | bucket :: rest, link => link ≠ 0 ∧ ∃ next, BucketAt s bucket link next ∧ ChainAt rest next

/-- A bucket lies at an address, and its overflow buckets where its link leads to. -/
def RowAt (row : Row s.pointerWidth k v) (address : Nat) : Prop :=
  ∃ link, BucketAt s row.main address link ∧ ChainAt s row.overflow link

/-- The header of a map lies at an address: how many entries there are, the logarithm of the number
of buckets, a seed, and the address of the buckets. -/
structure HeaderAt (count log2Buckets seed base address : Nat) : Prop where
  count : s.Stores address (littleEndianBytes s.pointerWidth.toNat count)
  log2Buckets : s.Stores (address + s.pointerWidth.toNat + 1) (littleEndianBytes 1 log2Buckets)
  seed : s.Stores (address + s.pointerWidth.toNat + 4) (littleEndianBytes 4 seed)
  base : s.Stores (address + s.pointerWidth.toNat + 8)
    (littleEndianBytes s.pointerWidth.toNat base)

end Memory

variable {s : Source} {version : VersionBound} {k v : IntegerKind} {n : Nat} {depth : UInt32}

section Places

variable {p : UInt32} (wide : p = 4 ∨ p = 8)

include wide

theorem isAlignment : IsAlignment (alignment p k v) :=
  (k.isAlignment wide).max ((v.isAlignment wide).max (isAlignment_word wide))

theorem dvd_alignment :
    (k.width p).toNat ∣ alignment p k v ∧ (v.width p).toNat ∣ alignment p k v := by
  have all := isAlignment (k := k) (v := v) wide
  constructor
  · exact (k.isAlignment wide).dvd_of_le all (Nat.le_max_left _ _)
  · exact (v.isAlignment wide).dvd_of_le all ((Nat.le_max_left _ _).trans (Nat.le_max_right _ _))

theorem place_tops : nextMultiple 0 ((array 8 uint8).align p) = 0 :=
  nextMultiple_of_dvd ((array 8 uint8).isAlignment wide).pos (Nat.dvd_zero _)

theorem size_tops : (array 8 uint8).size p = 8 := (IntegerKind.number .one false).size_array wide 8

theorem place_keys :
    nextMultiple (0 + (array 8 uint8).size p) ((array 8 k.term).align p) = 8 := by
  have alignment := k.isAlignment wide
  rw [align, k.align_term wide, size_tops wide]
  exact nextMultiple_of_dvd alignment.pos alignment.dvd_eight

theorem place_elems : nextMultiple (8 + (array 8 k.term).size p) ((array 8 v.term).align p) =
    elemsPlace p k := by
  have alignment := v.isAlignment wide
  have eight := alignment.dvd_eight
  rw [align, v.align_term wide, k.size_array wide]
  exact nextMultiple_of_dvd alignment.pos (Nat.dvd_add eight (Nat.dvd_mul_right_of_dvd eight _))

theorem place_link : nextMultiple (elemsPlace p k + (array 8 v.term).size p)
    (uintptr.align p) = linkPlace p k v := by
  have alignment := isAlignment_word wide
  have eight := alignment.dvd_eight
  have word : uintptr.align p = p.toNat := IntegerKind.address.align_term wide
  rw [word, v.size_array wide]
  refine nextMultiple_of_dvd alignment.pos (Nat.dvd_add (Nat.dvd_add eight ?_) ?_)
  · exact Nat.dvd_mul_right_of_dvd eight _
  · exact Nat.dvd_mul_right_of_dvd eight _

theorem stop_legacyFields : stop p 0 (legacyFields k.term v.term) = linkPlace p k v + p.toNat := by
  have word : uintptr.size p = p.toNat := IntegerKind.address.size_term wide
  rw [legacyFields, stop, stop, stop, stop, stop, place_tops wide, place_keys wide,
    place_elems wide, place_link wide, word]

theorem alignAll_legacyFields : alignAll p (legacyFields k.term v.term) = alignment p k v := by
  have byte : (array 8 uint8).align p = 1 := (IntegerKind.number .one false).align_term wide
  have key : (array 8 k.term).align p = (k.width p).toNat := k.align_term wide
  have elem : (array 8 v.term).align p = (v.width p).toNat := v.align_term wide
  have word : uintptr.align p = p.toNat := IntegerKind.address.align_term wide
  have positive := (isAlignment_word wide).pos
  rw [legacyFields, alignAll, alignAll, alignAll, alignAll, alignAll, byte, key, elem, word,
    alignment]
  omega

omit wide in
theorem bucket_of_old (old : version.swissMaps = false) :
    TypeTerm.bucket version k.term v.term = .struct (legacyFields k.term v.term) := by
  rw [TypeTerm.bucket, bucketFields, old]
  rfl

/-- The bytes from one bucket to the next are those that arrays of buckets have. -/
theorem stride_bucket : (struct (legacyFields k.term v.term)).stride p = stride p k v := by
  have aligned := isAlignment (k := k) (v := v) wide
  rw [TypeTerm.stride, size, align, stop_legacyFields wide, alignAll_legacyFields wide]
  exact nextMultiple_of_dvd aligned.pos (dvd_nextMultiple _ _)

end Places

section Buckets

variable (wide : s.pointerWidth = 4 ∨ s.pointerWidth = 8)

def partNames : List Text := [utf8 "topbits", utf8 "keys", utf8 "elems", utf8 "overflow"]

def parts (bucket : Bucket s.pointerWidth k v) (link : Nat) : List (Value → Prop) :=
  [ShowsArray (fun slot x => x.data = .integer (UInt64.ofNat slot.mark.toNat) false) bucket.toList,
    ShowsArray (fun slot => k.Shows s.pointerWidth slot.key) bucket.toList,
    ShowsArray (fun slot => v.Shows s.pointerWidth slot.elem) bucket.toList,
    fun value => value.data = .pointer (UInt64.ofNat link)]

include wide

/-- The bytes that tell which slots are taken. -/
theorem reads_tops {bucket : Bucket s.pointerWidth k v} {address : Nat} (deep : depth ≠ 0)
    (tops : ∀ (i : Nat) slot, bucket.toList[i]? = some slot →
      s.Stores (address + i) [slot.mark]) :
    Reads s version (n + 2) depth (.array 8 uint8) address (ShowsArray (fun slot x =>
      x.data = .integer (UInt64.ofNat slot.mark.toNat) false) bucket.toList) := by
  apply reads_array wide _ deep Vector.length_toList (Nat.one_dvd address)
  · intro i slot mem
    have byte : uint8.stride s.pointerWidth = 1 := (IntegerKind.number .one false).stride_term wide
    rw [byte, Nat.mul_one]
    exact reads_unsigned wide .one (tops i slot mem) rfl
  · intro slot value shows
    rw [Value.isBad, shows]

/-- A bucket that lies at an address is read part by part. -/
theorem reads_bucket (old : version.swissMaps = false) (deep : depth ≠ 0) (next : depth + 1 ≠ 0)
    {bucket : Bucket s.pointerWidth k v} {address link : Nat}
    (h : BucketAt s bucket address link) (fits : link < 2 ^ (8 * s.pointerWidth.toNat)) :
    Reads s version (n + 3) (depth + 1) (TypeTerm.bucket version k.term v.term) address fun value =>
      ∃ vs, value.data = .struct partNames vs ∧
        List.Forall₂ (fun post value => post value) (parts bucket link) vs := by
  obtain ⟨dvdKey, dvdElem⟩ := dvd_alignment (k := k) (v := v) wide
  have alignedKeys : (k.width s.pointerWidth).toNat ∣ address + 8 :=
    Nat.dvd_add (dvdKey.trans h.aligned) (k.isAlignment wide).dvd_eight
  have alignedElems : (v.width s.pointerWidth).toNat ∣ address + elemsPlace s.pointerWidth k := by
    have eight := (v.isAlignment wide).dvd_eight
    exact Nat.dvd_add (dvdElem.trans h.aligned)
      (Nat.dvd_add eight (Nat.dvd_mul_right_of_dvd eight _))
  rw [bucket_of_old old]
  apply reads_struct next
  rw [UInt32.add_sub_cancel]
  refine ⟨_, _, rfl, fun _ shows => shows.isBad, ?_, _, _, rfl, fun _ shows => shows.isBad, ?_,
    _, _, rfl, fun _ shows => shows.isBad, ?_, _, _, rfl, fun _ shows => ?_, ?_, rfl⟩
  · rw [place_tops wide]
    exact reads_tops wide deep h.tops
  · rw [place_tops wide, place_keys wide]
    exact reads_integers wide deep Vector.length_toList alignedKeys h.keys
  · rw [place_tops wide, place_keys wide, place_elems wide]
    exact reads_integers wide deep Vector.length_toList alignedElems h.elems
  · rw [Value.isBad, shows]
  · rw [place_tops wide, place_keys wide, place_elems wide, place_link wide]
    exact reads_word wide h.link fits

omit wide in
/-- The byte of a slot, as it is read, tells whether the slot is taken. -/
theorem isTaken_eq {slot : Slot s.pointerWidth k v} {value : Value}
    (shown : value.data = .integer (UInt64.ofNat slot.mark.toNat) false) :
    isTaken value = taken slot.mark := by
  have same (c : UInt8) : (UInt64.ofNat slot.mark.toNat != c.toUInt64) = (slot.mark != c) := by
    have words : UInt64.ofNat slot.mark.toNat = slot.mark.toUInt64 := by
      apply UInt64.toNat_inj.mp
      rw [UInt64.toNat_ofNat', UInt8.toNat_toUInt64]
      exact Nat.mod_eq_of_lt (Nat.lt_trans slot.mark.toNat_lt (by decide))
    rw [words, Bool.eq_iff_iff, bne_iff_ne, bne_iff_ne, ne_eq, ne_eq, UInt8.toUInt64_inj]
  have word : integerWord? value = some (UInt64.ofNat slot.mark.toNat) := by
    rw [integerWord?, shown]
  rw [isTaken, word, taken, ← same 0, ← same 1, ← same 4]
  rfl

omit wide in
/-- The entries of the slots are those whose bytes tell so. -/
theorem shows_filterMap {slots : List (Slot s.pointerWidth k v)} {tops keys elems : List Value}
    (first : List.Forall₂ (fun slot x =>
      x.data = .integer (UInt64.ofNat slot.mark.toNat) false) slots tops)
    (second : List.Forall₂ (fun slot => k.Shows s.pointerWidth slot.key) slots keys)
    (third : List.Forall₂ (fun slot => v.Shows s.pointerWidth slot.elem) slots elems) :
    List.Forall₂ (ShowsEntry s.pointerWidth) (entriesOf taken slots)
      ((tops.zip (keys.zip elems)).filterMap fun (top, entry) =>
        if isTaken top then some entry else none) := by
  induction first generalizing keys elems with
  | nil => exact .nil
  | @cons slot top slots tops shown _ ih =>
      cases second with
      | cons key keys =>
          cases third with
          | cons elem elems =>
              have rest := ih keys elems
              have same := isTaken_eq shown
              rw [List.zip_cons_cons, List.zip_cons_cons, List.filterMap_cons]
              dsimp only
              rw [same, entriesOf_cons]
              cases taken slot.mark with
              | false => exact rest
              | true => exact .cons ⟨key, elem⟩ rest

/-- The fields of a bucket give its entries. -/
def IsBucket (bucket : Bucket s.pointerWidth k v) (fields : List Text × List Value) : Prop :=
  Finds s.pointerWidth bucket.entries (bucketEntries? fields)

omit wide in
theorem isBucket_of_parts {bucket : Bucket s.pointerWidth k v} {link : Nat} {vs : List Value}
    (shown : List.Forall₂ (fun post value => post value) (parts bucket link) vs) :
    IsBucket bucket (partNames, vs) := by
  cases shown with
  | @cons _ v1 _ _ tops shown =>
  cases shown with
  | @cons _ v2 _ _ keys shown =>
  cases shown with
  | @cons _ v3 _ _ elems shown =>
  cases shown with
  | @cons _ v4 _ _ _ shown =>
  cases shown
  obtain ⟨tops, first, shownTops⟩ := tops
  obtain ⟨keys, second, shownKeys⟩ := keys
  obtain ⟨elems, third, shownElems⟩ := elems
  have topbits : arrayElements? v1 = some tops := by rw [arrayElements?, first]
  have keyElements : arrayElements? v2 = some keys := by rw [arrayElements?, second]
  have elements : arrayElements? v3 = some elems := by rw [arrayElements?, third]
  have eight : tops.length = 8 := by rw [← shownTops.length_eq, Vector.length_toList]
  have same : keys.length = tops.length ∧ elems.length = tops.length := by
    rw [← shownKeys.length_eq, ← shownElems.length_eq, ← shownTops.length_eq]
    exact ⟨rfl, rfl⟩
  have complete : ¬(tops.isEmpty ∨ keys.length ≠ tops.length ∨ elems.length ≠ tops.length) := by
    rw [List.isEmpty_iff_length_eq_zero, eight]
    omega
  refine ⟨_, ?_, shows_filterMap shownTops shownKeys shownElems⟩
  show ((arrayElements? v1).bind fun tops => (arrayElements? v2).bind fun keys =>
    (arrayElements? v3).bind fun elems => _) = _
  rw [topbits, keyElements, elements]
  exact if_neg complete

variable (s k v) in
/-- Buckets that lie anywhere are read as their entries. -/
def ReadsBuckets (read : Reader) (type : GoType) (depth : UInt32) : Prop :=
  ∀ {bucket : Bucket s.pointerWidth k v} {address link : Nat}, BucketAt s bucket address link →
    link < 2 ^ (8 * s.pointerWidth.toNat) →
    Gives (read type (UInt64.ofNat address) (depth + 1)) fun value =>
      ∃ fields, structFields? value = some fields ∧ IsBucket bucket fields

include wide

theorem reads_buckets (old : version.swissMaps = false) (deep : depth ≠ 0) (next : depth + 1 ≠ 0)
    {type : GoType} (denotes : Denotes s.graph version s.pointerWidth
      (TypeTerm.bucket version k.term v.term) type) :
    ReadsBuckets s k v (within s (n + 3)) type depth := by
  intro bucket address link h fits
  apply (reads_bucket wide old deep next h fits type denotes).mono
  rintro value ⟨vs, data, shown⟩
  refine ⟨(partNames, vs), ?_, isBucket_of_parts shown⟩
  rw [structFields?, data]

end Buckets

section Chains

theorem BucketAt.address_lt {bucket : Bucket s.pointerWidth k v} {address link : Nat}
    (h : BucketAt s bucket address link) : address < 2 ^ (8 * s.pointerWidth.toNat) := by
  have slot := List.getElem?_eq_getElem (l := bucket.toList) (i := 0)
    (by rw [Vector.length_toList]; decide)
  exact Nat.lt_of_lt_of_le (Nat.lt_succ_self _) (h.tops 0 _ slot).inside

/-- What links lead to is an address. -/
theorem link_lt {rest : List (Bucket s.pointerWidth k v)} {link : Nat} (h : ChainAt s rest link) :
    link < 2 ^ (8 * s.pointerWidth.toNat) := by
  cases rest with
  | nil =>
      cases h
      exact Nat.two_pow_pos _
  | cons bucket rest =>
      obtain ⟨_, next, there, _⟩ := h
      exact there.address_lt

variable (wide : s.pointerWidth = 4 ∨ s.pointerWidth = 8)

include wide

theorem readWord?_link {bucket : Bucket s.pointerWidth k v} {address link : Nat}
    (h : BucketAt s bucket address link) (fits : link < 2 ^ (8 * s.pointerWidth.toNat)) :
    s.readWord? (UInt64.ofNat address + UInt64.ofNat (linkPlace s.pointerWidth k v)) =
      some (UInt64.ofNat link) := by
  rw [← UInt64.ofNat_add]
  exact h.link.readWord? wide fits

variable {read : Reader} {type : GoType} (each : ReadsBuckets s k v read type depth)

include each

/-- A bucket and its overflow buckets are read as their entries. -/
theorem gives_chain {rest : List (Bucket s.pointerWidth k v)}
    {bucket : Bucket s.pointerWidth k v} {fields : List Text × List Value}
    {limit address link : Nat} (h : BucketAt s bucket address link) (chain : ChainAt s rest link)
    (short : rest.length ≤ limit) (good : IsBucket bucket fields) :
    Gives (bucketChain s read type (UInt64.ofNat (linkPlace s.pointerWidth k v)) depth limit fields
        (UInt64.ofNat address))
      (Finds s.pointerWidth (bucket.entries ++ rest.flatMap Bucket.entries)) := by
  induction rest generalizing bucket fields limit address link with
  | nil =>
      obtain ⟨found, come, shown⟩ := good
      have word := readWord?_link wide h (link_lt chain)
      -- Zero ends the chain, whether or not more buckets would be followed.
      have ends : bucketChain s read type (UInt64.ofNat (linkPlace s.pointerWidth k v)) depth limit
          fields (UInt64.ofNat address) = pure (some found) := by
        cases chain
        cases limit <;> rw [bucketChain, withOverflow, come, word] <;> rfl
      rw [ends, List.flatMap_nil, List.append_nil]
      exact gives_pure ⟨found, rfl, shown⟩
  | cons other rest ih =>
      obtain ⟨found, come, shown⟩ := good
      have word := readWord?_link wide h (link_lt chain)
      have small := Nat.lt_of_lt_of_le (link_lt chain) (pow_word_le wide)
      obtain ⟨nonzero, further, there, chain⟩ := chain
      cases limit with
      | zero => exact absurd short (Nat.not_succ_le_zero _)
      | succ limit =>
          rw [bucketChain, withOverflow, come, word]
          dsimp only
          split
          · next none => exact nomatch none
          · next zero => exact absurd (Option.some.inj zero) (ofNat_ne_zero nonzero small)
          · next target eq =>
            cases Option.some.inj eq
            apply (each there (link_lt chain)).bind
            rintro value ⟨fields', data, good⟩
            rw [data]
            apply (ih there chain (Nat.le_of_succ_le_succ short) good).bind
            rintro _ ⟨es, rfl, all⟩
            exact gives_pure ⟨found ++ es, rfl, List.rel_append shown all⟩

/-- Rows of buckets are read as their entries. Once there are as many entries as are wanted, the
rows that are left have none. -/
theorem gives_buckets {rows : List (Row s.pointerWidth k v)} {base found : Nat} {wanted : UInt64}
    (rowsAt : ∀ (i : Nat) row, rows[i]? = some row →
      RowAt s row (base + i * stride s.pointerWidth k v))
    (short : ∀ row ∈ rows, row.overflow.length ≤ s.settings.overflowDepth.toNat)
    (all : found + (rows.flatMap Row.entries).length = wanted.toNat) :
    Gives (buckets s read type (UInt64.ofNat (linkPlace s.pointerWidth k v))
        (UInt64.ofNat (stride s.pointerWidth k v)) wanted depth rows.length (UInt64.ofNat base)
        found)
      (Finds s.pointerWidth (rows.flatMap Row.entries)) := by
  induction rows generalizing base found with
  | nil => exact gives_pure finds_nil
  | cons row rest ih =>
      rw [List.length_cons, buckets]
      rw [List.flatMap_cons, List.length_append] at all
      split
      · next enough =>
        -- All entries were counted, so the rows that are not looked at have none.
        have none : (row :: rest).flatMap Row.entries = [] := by
          apply List.eq_nil_of_length_eq_zero
          rw [List.flatMap_cons, List.length_append]
          omega
        rw [none]
        exact gives_pure finds_nil
      · obtain ⟨⟨link, there, chain⟩, later⟩ := forall_places_cons rowsAt
        obtain ⟨few, shortRest⟩ := List.forall_mem_cons.mp short
        apply (each there (link_lt chain)).bind
        rintro value ⟨fields, data, good⟩
        rw [data]
        apply gives_append (gives_chain wide each there chain few good)
        intro es first
        have left : found + es.length + (rest.flatMap Row.entries).length = wanted.toNat := by
          rw [← first.length_eq]
          show found + row.entries.length + _ = _
          omega
        have behind := ih later shortRest left
        rwa [UInt64.ofNat_add] at behind

end Chains

section Header

variable (wide : s.pointerWidth = 4 ∨ s.pointerWidth = 8) {type : GoType}

include wide

theorem overflowOffset?_eq (denotes : Denotes s.graph version s.pointerWidth
    (.struct (legacyFields k.term v.term)) type) :
    overflowOffset? type = some (some (UInt64.ofNat (linkPlace s.pointerWidth k v))) := by
  cases denotes with
  | struct heads shape denote =>
      rw [legacyFields] at denote
      obtain _ | ⟨_, _, _ | ⟨_, _, _ | ⟨_, _, _ | ⟨_, _, _ | _⟩⟩⟩⟩ := denote
      rw [overflowOffset?, shape]
      show some (some (UInt64.ofNat (nextMultiple _ (uintptr.align s.pointerWidth)))) = _
      rw [place_tops wide, place_keys wide, place_elems wide, place_link wide]

/-- The header is read. The seed may be anything. -/
theorem HeaderAt.reads {count log2Buckets seed base address : Nat}
    (h : HeaderAt s count log2Buckets seed base address)
    (countFits : count < 2 ^ (8 * s.pointerWidth.toNat)) (logFits : log2Buckets < 256)
    (baseFits : base < 2 ^ (8 * s.pointerWidth.toNat)) :
    s.readWord? (UInt64.ofNat address) = some (UInt64.ofNat count) ∧
      s.readUnsigned? (s.wordAt (UInt64.ofNat address) 1 + 1) 1 =
        some (UInt64.ofNat log2Buckets) ∧
      (∃ word, s.readUnsigned? (s.wordAt (UInt64.ofNat address) 1 + 4) 4 = some word) ∧
      s.readWord? (s.wordAt (UInt64.ofNat address) 1 + 8) = some (UInt64.ofNat base) := by
  have one (place : Nat) : UInt64.ofNat (address + s.pointerWidth.toNat + place) =
      s.wordAt (UInt64.ofNat address) 1 + UInt64.ofNat place := by
    rw [wordAt_one wide, UInt64.ofNat_add]
  refine ⟨h.count.readWord? wide countFits, ?_,
    ⟨UInt64.ofNat (littleEndian (littleEndianBytes 4 seed)), ?_⟩, ?_⟩
  · have read : s.readUnsigned? _ 1 = _ :=
      h.log2Buckets.readUnsigned? wide rfl (by decide) (by decide)
    rwa [littleEndian_littleEndianBytes, Nat.pow_one, Nat.mod_eq_of_lt logFits, one] at read
  · have read : s.readUnsigned? _ 4 = _ :=
      h.seed.readUnsigned? wide rfl (by decide) (by decide)
    rwa [one] at read
  · have read := h.base.readWord? wide baseFits
    rwa [one] at read

omit wide in
/-- The number of buckets is computed from its logarithm. -/
theorem toNat_bucketCount {log2Buckets : Nat} (few : 2 ^ log2Buckets ≤ 65536) :
    log2Buckets ≤ 16 ∧ ((1 : UInt64) <<< UInt64.ofNat log2Buckets).toNat = 2 ^ log2Buckets := by
  have log : log2Buckets ≤ 16 := by
    by_contra many
    have more : 2 ^ 17 ≤ 2 ^ log2Buckets :=
      Nat.pow_le_pow_right (by decide) (Nat.lt_of_not_le many)
    omega
  have counts : ∀ log < 17, ((1 : UInt64) <<< UInt64.ofNat log).toNat = 2 ^ log := by decide
  exact ⟨log, counts log2Buckets (Nat.lt_succ_of_le log)⟩

omit wide in
/-- All buckets are read. -/
theorem uncapped {log2Buckets : Nat} (few : 2 ^ log2Buckets ≤ 65536) :
    decide (maxBuckets < (1 : UInt64) <<< UInt64.ofNat log2Buckets) = false ∧
      (min ((1 : UInt64) <<< UInt64.ofNat log2Buckets) maxBuckets).toNat = 2 ^ log2Buckets := by
  obtain ⟨_, count⟩ := toNat_bucketCount few
  have le : (1 : UInt64) <<< UInt64.ofNat log2Buckets ≤ maxBuckets := by
    rw [UInt64.le_iff_toNat_le, count]
    exact few
  constructor
  · exact decide_eq_false (UInt64.not_lt.mpr le)
  · rw [← count]
    exact congrArg UInt64.toNat (if_pos le)

/-- The logarithm is below the number of bits in an address. -/
theorem log_lt {log2Buckets : Nat} (few : log2Buckets ≤ 16) :
    ¬(8 * s.pointerWidth).toUInt64 ≤ UInt64.ofNat log2Buckets := by
  have bits : 32 ≤ (8 * s.pointerWidth).toUInt64.toNat := by
    rcases wide with eq | eq <;> rw [eq] <;> decide
  rw [UInt64.le_iff_toNat_le, UInt64.toNat_ofNat', Nat.mod_eq_of_lt (by omega)]
  omega

/-- A map that lies at an address is read as its entries. -/
theorem gives_legacyMap {read : Reader} (deep : depth ≠ 0)
    (fields : Denotes s.graph version s.pointerWidth (.struct (legacyFields k.term v.term)) type)
    (each : ReadsBuckets s k v read type depth) {rows : List (Row s.pointerWidth k v)}
    {log2Buckets seed base address : Nat} (few : 2 ^ log2Buckets ≤ 65536)
    (length : rows.length = 2 ^ log2Buckets)
    (header : HeaderAt s (rows.flatMap Row.entries).length log2Buckets seed base address)
    (some : 1 ≤ (rows.flatMap Row.entries).length)
    (fits : (rows.flatMap Row.entries).length < 2 ^ (8 * s.pointerWidth.toNat))
    (rowsAt : ∀ (i : Nat) row, rows[i]? = .some row →
      RowAt s row (base + i * stride s.pointerWidth k v))
    (short : ∀ row ∈ rows, row.overflow.length ≤ s.settings.overflowDepth.toNat) :
    Gives (legacyMap s read type (UInt64.ofNat address) depth)
      (ShowsMap s.pointerWidth (rows.flatMap Row.entries)) := by
  have positive : 0 < rows.length := length ▸ Nat.two_pow_pos log2Buckets
  obtain ⟨link, there, _⟩ := rowsAt 0 rows[0] (List.getElem?_eq_getElem positive)
  rw [Nat.zero_mul, Nat.add_zero] at there
  obtain ⟨log, _⟩ := toNat_bucketCount few
  obtain ⟨all, bucketCount⟩ := uncapped few
  obtain ⟨count, logByte, ⟨seedWord, seed⟩, baseWord⟩ :=
    header.reads wide fits (by omega) there.address_lt
  have small := Nat.lt_of_lt_of_le fits (pow_word_le wide)
  have align : type.align = UInt64.ofNat (alignment s.pointerWidth k v) := by
    rw [fields.heads.align, TypeTerm.align, alignAll_legacyFields wide]
  have aligned : ¬UInt64.ofNat base % type.align ≠ 0 := by
    rw [align, ofNat_mod_eq_zero (isAlignment wide) there.aligned]
    exact fun other => other rfl
  have padded := fields.heads.roundUp wide
  rw [stride_bucket wide] at padded
  unfold legacyMap
  dsimp only
  rw [count, logByte, seed, baseWord]
  dsimp only
  rw [if_neg deep, if_neg (ofNat_ne_zero (Nat.ne_of_gt some) small), overflowOffset?_eq wide fields]
  dsimp only
  rw [if_neg (log_lt wide log), if_neg aligned, all, bucketCount, padded, ← length]
  have wanted : 0 + (rows.flatMap Row.entries).length =
      (UInt64.ofNat (rows.flatMap Row.entries).length).toNat := by
    rw [UInt64.toNat_ofNat', Nat.mod_eq_of_lt small, Nat.zero_add]
  apply gives_noteIf_false.bind
  rintro _ -
  apply (gives_buckets wide each rowsAt short wanted).bind
  intro found finds
  exact gives_pure (finds.shows_ofFound _ some)

end Header

section Blocks

/-- The bytes of a bucket, one part after another. -/
def bucketBytes {p : UInt32} (bucket : Bucket p k v) (link : Nat) : List UInt8 :=
  bucket.toList.flatMap (fun slot => [slot.mark]) ++
    (bucket.toList.flatMap (fun slot => k.encode p slot.key) ++
      (bucket.toList.flatMap (fun slot => v.encode p slot.elem) ++
        littleEndianBytes p.toNat link))

/-- A bucket lies where a block with its bytes is shown. -/
theorem bucketAt_of_shows (wide : s.pointerWidth = 4 ∨ s.pointerWidth = 8) {base place link : Nat}
    {block : Bytes} {bucket : Bucket s.pointerWidth k v}
    (inside : base + block.size ≤ 2 ^ (8 * s.pointerWidth.toNat)) (small : block.size < 2 ^ 64)
    (shown : s.memory.Shows (UInt64.ofNat base) block)
    (aligned : alignment s.pointerWidth k v ∣ base + place)
    (holds : block.Holds place (bucketBytes bucket link)) :
    BucketAt s bucket (base + place) link := by
  have one (slot : Slot s.pointerWidth k v) : [slot.mark].length = 1 := rfl
  have keyWidth (slot : Slot s.pointerWidth k v) :
      (k.encode s.pointerWidth slot.key).length = (k.width s.pointerWidth).toNat :=
    length_littleEndianBytes _ _
  have elemWidth (slot : Slot s.pointerWidth k v) :
      (v.encode s.pointerWidth slot.elem).length = (v.width s.pointerWidth).toNat :=
    length_littleEndianBytes _ _
  have lies {place : Nat} {bytes : List UInt8} (some : 0 < bytes.length)
      (there : block.Holds place bytes) : s.Stores (base + place) bytes :=
    Source.stores_of_shows inside small shown there (List.ne_nil_of_length_pos some)
  obtain ⟨tops, holds⟩ := holds.append
  obtain ⟨keys, holds⟩ := holds.append
  obtain ⟨elems, links⟩ := holds.append
  rw [length_flatMap_even one, Vector.length_toList] at keys elems links
  rw [length_flatMap_even keyWidth, Vector.length_toList] at elems links
  rw [length_flatMap_even elemWidth, Vector.length_toList] at links
  refine ⟨aligned, ?_, ?_, ?_, ?_⟩
  · intro i slot mem
    have piece := lies (Nat.lt_of_lt_of_eq (by decide) (one slot).symm) (tops.piece one mem)
    rwa [Nat.mul_one, ← Nat.add_assoc] at piece
  · intro i slot mem
    have positive := Nat.lt_of_lt_of_eq (k.isAlignment wide).pos (keyWidth slot).symm
    have piece := lies positive (keys.piece keyWidth mem)
    rwa [← Nat.add_assoc, ← Nat.add_assoc] at piece
  · intro i slot mem
    have positive := Nat.lt_of_lt_of_eq (v.isAlignment wide).pos (elemWidth slot).symm
    have piece := lies positive (elems.piece elemWidth mem)
    rwa [← Nat.add_assoc, Nat.add_assoc place, ← Nat.add_assoc] at piece
  · have positive := Nat.lt_of_lt_of_eq (isAlignment_word wide).pos
      (length_littleEndianBytes _ link).symm
    have piece := lies positive links
    rwa [Nat.add_assoc place, Nat.add_assoc place, ← Nat.add_assoc] at piece

end Blocks

/-- A map of integers is read as what lies in memory. Over every graph whose nodes are what their
names say, the text of the map type is read as a type. An object of that type whose header counts
the taken slots of all buckets and overflow buckets, with at most 65536 buckets one after another
and no more overflow buckets behind each other than are followed, is read at every depth as the
taken slots, bucket by bucket, those of a bucket before those of its overflow buckets. Nothing is
left behind. -/
theorem reader_rows {depth : UInt32} (wide : s.pointerWidth = 4 ∨ s.pointerWidth = 8)
    (old : version.min < 24)
    (faithful : Faithful s.graph version s.pointerWidth (.map k.term v.term))
    {rows : List (Row s.pointerWidth k v)} {log2Buckets seed base address : Nat}
    (few : 2 ^ log2Buckets ≤ 65536) (length : rows.length = 2 ^ log2Buckets)
    (header : HeaderAt s (rows.flatMap Row.entries).length log2Buckets seed base address)
    (some : 1 ≤ (rows.flatMap Row.entries).length)
    (fits : (rows.flatMap Row.entries).length < 2 ^ (8 * s.pointerWidth.toNat))
    (rowsAt : ∀ (i : Nat) row, rows[i]? = .some row →
      RowAt s row (base + i * stride s.pointerWidth k v))
    (short : ∀ row ∈ rows, row.overflow.length ≤ s.settings.overflowDepth.toNat)
    (deep : 1 ≤ depth.toNat) (shallow : depth.toNat ≤ 2 ^ 32 - 3) (trace : Trace) :
    ∃ t, (parse s.graph version s.pointerWidth (map k.term v.term).text).bind s.graph.lookup? =
        .some t ∧
      ∃ value, reader s t (UInt64.ofNat address) depth trace = .some (value, trace) ∧
        ShowsMap s.pointerWidth (rows.flatMap Row.entries) value := by
  have legacy : version.swissMaps = false := decide_eq_false (UInt32.not_le.mpr old)
  have next : depth + 1 ≠ 0 := add_ne_zero (by decide) (by decide) shallow
  obtain ⟨t, type, known, denotes, reads⟩ := exists_mapReader wide faithful
  have read := gives_legacyMap wide (ne_zero_of_le deep) (bucket_of_old legacy ▸ denotes)
    (reads_buckets (n := limit - 4) wide legacy (ne_zero_of_le deep) next denotes) few length
    header some fits rowsAt short
  refine ⟨t, known, ?_⟩
  rw [reads, legacy]
  exact read trace

section Sample

/-- Keys and elements of the sample are bytes. -/
def byte : IntegerKind := .number .one false

def sampleMain : Bucket 8 byte byte :=
  #v[⟨5, 1#8, 10#8⟩, ⟨1, 0#8, 0#8⟩, ⟨0, 0#8, 0#8⟩, ⟨0, 0#8, 0#8⟩, ⟨0, 0#8, 0#8⟩, ⟨0, 0#8, 0#8⟩,
    ⟨0, 0#8, 0#8⟩, ⟨0, 0#8, 0#8⟩]

/-- An overflow bucket whose third slot is taken. -/
def sampleOverflow : Bucket 8 byte byte :=
  #v[⟨0, 0#8, 0#8⟩, ⟨4, 9#8, 9#8⟩, ⟨200, 2#8, 20#8⟩, ⟨0, 0#8, 0#8⟩, ⟨0, 0#8, 0#8⟩, ⟨0, 0#8, 0#8⟩,
    ⟨0, 0#8, 0#8⟩, ⟨0, 0#8, 0#8⟩]

/-- The header, and the buckets behind it. -/
def sampleBlock : Bytes :=
  (littleEndianBytes 8 2 ++ littleEndianBytes 4 0 ++ littleEndianBytes 4 0xCAFE ++
    littleEndianBytes 8 0x1020 ++ littleEndianBytes 8 0 ++ bucketBytes sampleMain 0x1040 ++
    bucketBytes sampleOverflow 0).toArray

def sampleSource : Source where
  memory := (MappedMemory.map ⟨∅, 0⟩ 0x1000 sampleBlock).toMemory
  pointerWidth := 8
  graph := .empty
  settings := {}

def sampleRow : Row 8 byte byte := ⟨sampleMain, [sampleOverflow]⟩

/-- The sample is read back. -/
theorem reader_rows_sample : ∃ t, (parse sampleSource.graph ⟨20, 20⟩ sampleSource.pointerWidth
      (map byte.term byte.term).text).bind sampleSource.graph.lookup? = some t ∧
    ∃ value, reader sampleSource t 0x1000 1 {} = some (value, {}) ∧
      ShowsMap 8 ([(1#8, 10#8), (2#8, 20#8)] : List (Entry 8 byte byte)) value := by
  have shown : sampleSource.memory.Shows (UInt64.ofNat 0x1000) sampleBlock :=
    MappedMemory.shows_map (by decide)
  have inside : 0x1000 + sampleBlock.size ≤ 2 ^ (8 * sampleSource.pointerWidth.toNat) := by decide
  have small : sampleBlock.size < 2 ^ 64 := by decide
  have lies (place : Nat) {bytes : List UInt8} (there : sampleBlock.Holds place bytes)
      (some : bytes ≠ []) : sampleSource.Stores (0x1000 + place) bytes :=
    Source.stores_of_shows inside small shown there some
  have header : HeaderAt sampleSource ([sampleRow].flatMap Row.entries).length 0 0xCAFE 0x1020
      0x1000 := by
    refine ⟨lies 0 ?_ ?_, lies 9 ?_ ?_, lies 12 ?_ ?_, lies 16 ?_ ?_⟩ <;> decide
  have main : BucketAt sampleSource sampleMain (0x1000 + 0x20) 0x1040 :=
    bucketAt_of_shows (.inr rfl) inside small shown (by decide) (by decide)
  have overflow : BucketAt sampleSource sampleOverflow (0x1000 + 0x40) 0 :=
    bucketAt_of_shows (.inr rfl) inside small shown (by decide) (by decide)
  have rowsAt : ∀ (i : Nat) row, [sampleRow][i]? = some row →
      RowAt sampleSource row (0x1020 + i * stride sampleSource.pointerWidth byte byte) := by
    rintro (_ | i) row mem
    · cases mem
      rw [Nat.zero_mul]
      exact ⟨0x1040, main, by decide, 0, overflow, rfl⟩
    · cases mem
  have short : ∀ row ∈ [sampleRow],
      row.overflow.length ≤ sampleSource.settings.overflowDepth.toNat := by
    intro row mem
    rw [List.mem_singleton.mp mem]
    decide
  have old : (⟨20, 20⟩ : VersionBound).min < 24 := by decide
  exact reader_rows (.inr rfl) old (faithful_empty _) (by decide) rfl header (by decide) (by decide)
    rowsAt short (by decide) (by decide) {}

end Sample

end LegacyMap

end GoInspect
