import GoInspect.Proofs.Extract.Conformance
import GoInspect.Proofs.Traversal

/-!
# Extraction gives conforming values

Each kind of object is read soundly when the objects inside are. A bad object inside is never
passed on: it makes the whole bad, ends a list of fields, or leaves a header or an address.
-/

namespace GoInspect

namespace Extract

variable {s : Source} {read : Reader}

/-- A reader that keeps the promise of extraction. -/
def Sound (s : Source) (read : Reader) : Prop :=
  ∀ t address depth, Ensures (read t address depth) (Extracted s t)

theorem ensures_bad {t : GoType} : Ensures (pure Value.bad) (Extracted s t) :=
  ensures_pure (.inl rfl)

section Composite

/-- A list of elements is as long as was asked, and all of them are good. -/
theorem Sound.elements (sound : Sound s read) (t : GoType) (stride : UInt64) (depth : UInt32)
    (count : Nat) (address : UInt64) :
    Ensures (elements read t stride depth count address) fun found =>
      ∀ vs, found = some vs → vs.length = count ∧ ∀ v ∈ vs, v.Clean ∧ Conforms s t v := by
  induction count generalizing address with
  | zero =>
      refine ensures_pure fun vs found => ?_
      cases found
      exact ⟨rfl, fun v none => nomatch none⟩
  | succ count ih =>
      refine (sound t address depth).bind fun v first => ?_
      split
      · exact ensures_pure fun vs none => nomatch none
      · next good =>
        have good := first.of_isBad_eq_false (Bool.eq_false_iff.mpr good)
        refine (ih (address + stride)).bind fun found rest => ?_
        split
        · exact ensures_pure fun vs none => nomatch none
        · next vs =>
          refine ensures_pure fun vs' found => ?_
          cases found
          obtain ⟨length, all⟩ := rest vs rfl
          refine ⟨congrArg (· + 1) length, fun u mem => ?_⟩
          obtain rfl | mem := List.mem_cons.mp mem
          · exact good
          · exact all u mem

theorem Sound.arrayOf (sound : Sound s read) {t e : GoType} {elem sliceType : TypeRef GoType}
    {length : UInt64} (shape : t.shape = .array elem sliceType length)
    (element : s.graph.deref? elem = some e) (total address : UInt64) (depth : UInt32) :
    Ensures (arrayOf read e length total address depth) (Extracted s t) := by
  have kind : t.kind = .array := congrArg Shape.kind shape
  rw [Extract.arrayOf]
  split
  · split
    · exact ensures_pure (.inr ⟨Value.clean_unparsed _ _, .unparsed (by simp [kind])⟩)
    · refine (sound.elements e _ _ _ _).bind fun found all => ?_
      split
      · exact ensures_bad
      · next vs =>
        obtain ⟨count, good⟩ := all vs rfl
        refine ensures_pure (.inr ⟨Value.clean_mk rfl fun v mem => (good v mem).1, ?_⟩)
        exact .array shape element count fun v mem => (good v mem).2
  · exact ensures_bad

/-- A pointer, and with it the value of an interface once its type is known. -/
theorem Sound.pointerTo (sound : Sound s read) (e : GoType) (address : UInt64) (depth : UInt32) :
    Ensures (pointerTo s read (some e) address depth) fun v =>
      v = .bad ∨ (∃ place c, v = .pointer place c) ∨ (∃ place c, v = .unparsed place c) ∨
        (v.Clean ∧ Conforms s e v) := by
  unfold Extract.pointerTo
  dsimp only
  split
  · exact ensures_pure (.inl rfl)
  · exact ensures_pure (.inr (.inl ⟨_, _, rfl⟩))
  · refine .after fun new => ?_
    split
    · refine (sound e _ depth).bind fun v target => ?_
      split
      · exact ensures_pure (.inr (.inl ⟨_, _, rfl⟩))
      · next good =>
        exact ensures_pure
          (.inr (.inr (.inr (target.of_isBad_eq_false (Bool.eq_false_iff.mpr good)))))
    · exact ensures_pure (.inr (.inr (.inl ⟨_, _, rfl⟩)))

theorem Sound.pointer (sound : Sound s read) {t : GoType} {elem : TypeRef GoType}
    (shape : t.shape = .pointer elem) (address : UInt64) (depth : UInt32) :
    Ensures (Extract.pointerTo s read (s.graph.deref? elem) address depth) (Extracted s t) := by
  have kind : t.kind = .pointer := congrArg Shape.kind shape
  cases element : s.graph.deref? elem with
  | none => exact ensures_bad
  | some e =>
      refine (sound.pointerTo e address depth).mono fun v outcome => ?_
      obtain bad | ⟨place, c, rfl⟩ | ⟨place, c, rfl⟩ | ⟨clean, conforms⟩ := outcome
      · exact .inl bad
      · exact .inr ⟨Value.clean_pointer place c, .pointer (.inl kind)⟩
      · exact .inr ⟨Value.clean_unparsed place c, .unparsed (by simp [kind])⟩
      · exact .inr ⟨clean, .target shape element conforms⟩

theorem Sound.interface (sound : Sound s read) {t : GoType}
    {methods : List (Method (TypeRef GoType))} (shape : t.shape = .interface methods)
    (hasMethods : Bool) (address : UInt64) (depth : UInt32) :
    Ensures (interface s read hasMethods address depth) (Extracted s t) := by
  have kind : t.kind = .interface := congrArg Shape.kind shape
  have unknown (place : UInt64) (c : Float) : Extracted s t (.pointer place c) :=
    .inr ⟨Value.clean_pointer place c, .pointer (.inr kind)⟩
  rw [Extract.interface]
  split
  · exact ensures_bad
  · next first _ =>
    dsimp only
    split
    · exact ensures_pure (unknown _ _)
    · next e found =>
      obtain ⟨place, _, node⟩ := Option.bind_eq_some_iff.mp found
      refine (sound.pointerTo e _ depth).bind fun v outcome => ?_
      split
      · exact ensures_pure (unknown _ _)
      · next good =>
        refine ensures_pure ?_
        obtain rfl | ⟨place, c, rfl⟩ | ⟨place, c, rfl⟩ | ⟨clean, conforms⟩ := outcome
        · exact absurd rfl good
        · exact unknown place c
        · exact .inr ⟨Value.clean_unparsed place c, .unparsed (by simp [kind])⟩
        · exact .inr ⟨clean, .dynamic shape node conforms⟩

theorem Sound.slice (sound : Sound s read) {t : GoType} {elem : TypeRef GoType}
    (shape : t.shape = .slice elem) (address : UInt64) (depth : UInt32) :
    Ensures (slice s read (s.graph.deref? elem) address depth) (Extracted s t) := by
  have kind : t.kind = .slice := congrArg Shape.kind shape
  unfold Extract.slice
  split
  · next e base length capacity element _ _ _ =>
    split
    · exact ensures_bad
    · next fits =>
      have below : length ≤ capacity := by
        obtain ⟨_, below⟩ := not_or.mp fits
        exact UInt64.not_lt.mp below
      have header (c : Float) : Extracted s t (.mk c (.slice base length capacity [])) :=
        .inr ⟨Value.clean_mk rfl (by nofun), .slice shape element below (.inl rfl) (by nofun)⟩
      dsimp only
      split
      · exact ensures_pure (header _)
      · split
        · exact ensures_pure (.inr ⟨Value.clean_unparsed _ _, .unparsed (by simp [kind])⟩)
        · split
          · exact ensures_pure (header _)
          · refine (sound.elements e _ _ _ _).bind fun found all => ?_
            split
            · exact ensures_pure (header _)
            · next vs =>
              obtain ⟨count, good⟩ := all vs rfl
              rw [toNat_min] at count
              refine ensures_pure (.inr ⟨Value.clean_mk rfl fun v mem => (good v mem).1, ?_⟩)
              exact .slice shape element below (.inr count) fun v mem => (good v mem).2
  · exact ensures_bad

/-- The leading fields that were found are those declared first, and all of them are good. -/
structure Leading (s : Source) (declared : List (Field (TypeRef GoType)))
    (found : List (Text × Value)) : Prop where
  names : found.map Prod.fst <+: declared.map Field.name
  clean : ∀ x ∈ found, x.2.Clean
  resolved : ∀ f ∈ declared.take found.length, (s.graph.deref? f.type).isSome
  conform : ∀ (i : Nat) f v e, declared[i]? = some f → (found.map Prod.snd)[i]? = some v →
    s.graph.deref? f.type = some e → Conforms s e v

theorem Leading.nil (declared : List (Field (TypeRef GoType))) : Leading s declared [] where
  names := List.nil_prefix
  clean _ none := nomatch none
  resolved _ none := nomatch none
  conform _ _ _ _ _ none := by cases none

theorem Leading.cons {f : Field (TypeRef GoType)} {declared : List (Field (TypeRef GoType))}
    {v : Value} {found : List (Text × Value)} {e : GoType} (h : Leading s declared found)
    (element : s.graph.deref? f.type = some e) (good : v.Clean ∧ Conforms s e v) :
    Leading s (f :: declared) ((f.name, v) :: found) where
  names := List.cons_prefix_cons.mpr ⟨rfl, h.names⟩
  clean x mem := by
    obtain rfl | mem := List.mem_cons.mp mem
    · exact good.1
    · exact h.clean x mem
  resolved g mem := by
    obtain rfl | mem := List.mem_cons.mp mem
    · rw [element]
      rfl
    · exact h.resolved g mem
  conform i g u e' here there element' := by
    cases i with
    | zero =>
        cases here
        cases there
        obtain rfl := Option.some.inj (element.symm.trans element')
        exact good.2
    | succ i => exact h.conform i g u e' here there element'

theorem Sound.fields (sound : Sound s read) (address : UInt64) (depth : UInt32)
    (declared : List (Field (TypeRef GoType))) :
    Ensures (fields s read address depth declared) (Leading s declared) := by
  induction declared with
  | nil => exact ensures_pure (.nil [])
  | cons f rest ih =>
      rw [Extract.fields]
      split
      · exact ensures_pure (.nil _)
      · next e element =>
        refine (sound e _ depth).bind fun v first => ?_
        split
        · exact ensures_pure (.nil _)
        · next good =>
          have good := first.of_isBad_eq_false (Bool.eq_false_iff.mpr good)
          exact ih.bind fun found leading => ensures_pure (leading.cons element good)

theorem Sound.struct (sound : Sound s read) {t : GoType}
    {declared : List (Field (TypeRef GoType))} (shape : t.shape = .struct declared)
    (address : UInt64) (depth : UInt32) :
    Ensures (struct s read declared address depth) (Extracted s t) := by
  have kind : t.kind = .struct := congrArg Shape.kind shape
  have whole {found : List (Text × Value)} {c : Float} (h : Leading s declared found) :
      Extracted s t (.mk c (.struct (found.map Prod.fst) (found.map Prod.snd))) := by
    refine .inr ⟨Value.clean_mk rfl ?_, .struct shape (by simp) h.names ?_ h.conform⟩
    · intro v mem
      obtain ⟨x, inside, rfl⟩ := List.mem_map.mp mem
      exact h.clean x inside
    · rw [List.length_map]
      exact h.resolved
  rw [Extract.struct]
  split
  · exact ensures_pure (.inr ⟨Value.clean_unparsed _ _, .unparsed (by simp [kind])⟩)
  · split
    · exact ensures_pure (whole (.nil declared))
    · refine (sound.fields address _ declared).bind fun found leading => ?_
      split
      · exact ensures_bad
      · exact ensures_pure (whole leading)

end Composite

section Parts

/-- No entry has anything bad inside. -/
def CleanEntries (entries : Entries) : Prop := ∀ entry ∈ entries, entry.1.Clean ∧ entry.2.Clean

theorem CleanEntries.append {entries others : Entries} (h : CleanEntries entries)
    (h' : CleanEntries others) : CleanEntries (entries ++ others) := by
  intro entry mem
  obtain mem | mem := List.mem_append.mp mem
  · exact h entry mem
  · exact h' entry mem

theorem clean_structFields? {v : Value} {names : List Text} {values : List Value}
    (clean : v.Clean) (h : structFields? v = some (names, values)) : ∀ u ∈ values, u.Clean := by
  intro u mem
  rw [structFields?] at h
  split at h
  · next data =>
    cases h
    exact clean.child (by rw [data]; exact mem)
  · cases h

theorem clean_arrayElements? {v : Value} {elements : List Value} (clean : v.Clean)
    (h : arrayElements? v = some elements) : ∀ u ∈ elements, u.Clean := by
  intro u mem
  rw [arrayElements?] at h
  split at h
  · next data =>
    cases h
    exact clean.child (by rw [data]; exact mem)
  · cases h

theorem mem_of_fieldOf? {names : List Text} {values : List Value} {name : Text} {v : Value}
    (h : Value.fieldOf? names values name = some v) : v ∈ values := by
  obtain ⟨⟨n, u⟩, found, rfl⟩ := Option.map_eq_some_iff.mp h
  exact (List.of_mem_zip (List.mem_of_find?_eq_some found)).2

/-- What a bad value lacks, so that the values inside are good. -/
theorem Extracted.clean_fields {t : GoType} {v : Value} {names : List Text} {values : List Value}
    (h : Extracted s t v) (fields : structFields? v = some (names, values)) :
    ∀ u ∈ values, u.Clean := by
  obtain rfl | ⟨clean, _⟩ := h
  · cases fields
  · exact clean_structFields? clean fields

theorem clean_bucketEntries? {bucket : List Text × List Value} {entries : Entries}
    (clean : ∀ u ∈ bucket.2, u.Clean) (h : bucketEntries? bucket = some entries) :
    CleanEntries entries := by
  rw [bucketEntries?] at h
  simp only [Option.bind_eq_bind, Option.bind_eq_some_iff, Option.pure_def] at h
  obtain ⟨_, _, topbits, _, keysField, hasKeys, keys, isKeys, elemsField, hasElems, elems,
    isElems, h⟩ := h
  split at h
  · cases h
  · cases h
    have cleanKeys := clean_arrayElements? (clean _ (mem_of_fieldOf? hasKeys)) isKeys
    have cleanElems := clean_arrayElements? (clean _ (mem_of_fieldOf? hasElems)) isElems
    intro entry mem
    obtain ⟨⟨top, pair⟩, slot, taken⟩ := List.mem_filterMap.mp mem
    dsimp only at taken
    split at taken
    · cases taken
      obtain ⟨key, value⟩ := entry
      have pair := List.of_mem_zip (List.of_mem_zip slot).2
      exact ⟨cleanKeys _ pair.1, cleanElems _ pair.2⟩
    · cases taken

theorem clean_slotEntry? {slot : Value} {entry : Value × Value} (clean : slot.Clean)
    (h : slotEntry? slot = some entry) : entry.1.Clean ∧ entry.2.Clean := by
  unfold slotEntry? at h
  simp only [Option.bind_eq_bind, Option.bind_eq_some_iff, Option.pure_def] at h
  obtain ⟨⟨names, values⟩, fields, key, hasKey, element, hasElement, eq⟩ := h
  cases eq
  have all := clean_structFields? clean fields
  exact ⟨all _ (mem_of_fieldOf? hasKey), all _ (mem_of_fieldOf? hasElement)⟩

theorem clean_groupEntries? {t : GoType} {v : Value} {entries : Entries} (good : Extracted s t v)
    (h : groupEntries? v = some entries) : CleanEntries entries := by
  rw [groupEntries?] at h
  simp only [Option.bind_eq_bind, Option.bind_eq_some_iff] at h
  obtain ⟨⟨names, values⟩, fields, _, _, control, _, slotsField, hasSlots, slots, isSlots, h⟩ := h
  have cleanSlots :=
    clean_arrayElements? (good.clean_fields fields _ (mem_of_fieldOf? hasSlots)) isSlots
  split at h
  · cases h
  · intro entry mem
    obtain ⟨⟨slot, i⟩, inside, come⟩ := exists_of_mapM h mem
    have inside := List.fst_mem_of_mem_zipIdx (List.mem_filter.mp inside).1
    exact clean_slotEntry? (cleanSlots slot inside) come

end Parts

section Maps

variable {e : GoType} {depth : UInt32}

/-- What readings of the parts of a map ensure. -/
abbrev EnsuresEntries (p : Reading (Option Entries)) : Prop :=
  Ensures p fun found => ∀ entries, found = some entries → CleanEntries entries

theorem ensuresEntries_none : EnsuresEntries (pure none) :=
  ensures_pure fun _ none => nomatch none

theorem ensuresEntries_some {entries : Entries} (h : CleanEntries entries) :
    EnsuresEntries (pure (some entries)) := by
  apply ensures_pure
  intro entries' found
  cases found
  exact h

theorem Sound.withOverflow (sound : Sound s read) (overflowOffset : UInt64)
    {more : List Text × List Value → UInt64 → Reading (Option Entries)}
    (rest : ∀ bucket address, (∀ u ∈ bucket.2, u.Clean) → EnsuresEntries (more bucket address))
    (bucket : List Text × List Value) (address : UInt64) (clean : ∀ u ∈ bucket.2, u.Clean) :
    EnsuresEntries (withOverflow s read e overflowOffset depth more bucket address) := by
  rw [Extract.withOverflow]
  split
  · exact ensuresEntries_none
  · next entries found =>
    have here := clean_bucketEntries? clean found
    split
    · exact ensuresEntries_some here
    · exact ensuresEntries_some here
    · refine (sound e _ _).bind fun v overflow => ?_
      split
      · exact ensuresEntries_some here
      · next names values fields =>
        refine (rest _ _ (overflow.clean_fields fields)).bind fun others found => ?_
        refine ensuresEntries_some (here.append ?_)
        cases others with
        | none => exact fun _ none => nomatch none
        | some others => exact found others rfl

theorem Sound.bucketChain (sound : Sound s read) (overflowOffset : UInt64) (limit : Nat)
    (bucket : List Text × List Value) (address : UInt64) (clean : ∀ u ∈ bucket.2, u.Clean) :
    EnsuresEntries (bucketChain s read e overflowOffset depth limit bucket address) := by
  induction limit generalizing bucket address with
  | zero =>
      exact sound.withOverflow overflowOffset (fun _ _ _ => ensuresEntries_none) bucket address
        clean
  | succ limit ih => exact sound.withOverflow overflowOffset ih bucket address clean

theorem Sound.buckets (sound : Sound s read) (overflowOffset stride wanted : UInt64)
    (count : Nat) (address : UInt64) (found : Nat) :
    EnsuresEntries (buckets s read e overflowOffset stride wanted depth count address found) := by
  induction count generalizing address found with
  | zero => exact ensuresEntries_some fun _ none => nomatch none
  | succ count ih =>
      rw [Extract.buckets]
      split
      · exact ensuresEntries_some fun _ none => nomatch none
      · refine (sound e address _).bind fun v bucket => ?_
        split
        · exact ensuresEntries_none
        · next fields isStruct =>
          have clean := bucket.clean_fields isStruct
          refine (sound.bucketChain overflowOffset _ fields address clean).bind
            fun here first => ?_
          split
          · exact ensuresEntries_none
          · next entries =>
            refine (ih _ _).bind fun there others => ?_
            split
            · exact ensuresEntries_none
            · exact ensuresEntries_some ((first _ rfl).append (others _ rfl))

theorem Sound.group (sound : Sound s read) (address : UInt64) :
    EnsuresEntries (group read e depth address) := by
  refine (sound e address _).bind ?_
  intro v good
  apply ensures_pure
  intro entries found
  exact clean_groupEntries? good found

theorem Sound.groups (sound : Sound s read) (count : Nat) (address : UInt64) :
    EnsuresEntries (groups read e depth count address) := by
  induction count generalizing address with
  | zero => exact ensuresEntries_some fun _ none => nomatch none
  | succ count ih =>
      refine (sound.group address).bind fun here first => ?_
      split
      · exact ensuresEntries_none
      · refine (ih _).bind fun there others => ?_
        split
        · exact ensuresEntries_none
        · exact ensuresEntries_some ((first _ rfl).append (others _ rfl))

theorem Sound.table (sound : Sound s read) (address : UInt64) :
    EnsuresEntries (table s read e depth address) := by
  rw [Extract.table]
  split
  · split
    · exact .after fun _ => ensuresEntries_none
    · exact sound.groups _ _
  · exact ensuresEntries_none

theorem Sound.tables (sound : Sound s read) (addresses : List UInt64) :
    EnsuresEntries (tables s read e depth addresses) := by
  induction addresses with
  | nil => exact ensuresEntries_some fun _ none => nomatch none
  | cons address rest ih =>
      refine (sound.table address).bind fun here first => ?_
      split
      · exact ensuresEntries_none
      · refine ih.bind fun there others => ?_
        split
        · exact ensuresEntries_none
        · exact ensuresEntries_some ((first _ rfl).append (others _ rfl))

theorem Sound.directory (sound : Sound s read) (base length : UInt64) :
    EnsuresEntries (directory s read e depth base length) := by
  rw [Extract.directory]
  split
  · exact ensuresEntries_none
  · refine (sound.tables _).bind fun found clean => ?_
    split
    · exact ensures_pure clean
    · exact ensuresEntries_none

variable {t : GoType} {key value bucket : TypeRef GoType}

/-- A map has as many keys as values. -/
theorem extracted_map (shape : t.shape = .map key value bucket) {entries : Entries} {c : Float}
    (clean : CleanEntries entries) :
    Extracted s t (.mk c (.map (entries.map Prod.fst) (entries.map Prod.snd))) := by
  refine .inr ⟨Value.clean_mk rfl fun v mem => ?_, .map shape (by simp)⟩
  obtain mem | mem := List.mem_append.mp mem
  · obtain ⟨entry, inside, rfl⟩ := List.mem_map.mp mem
    exact (clean entry inside).1
  · obtain ⟨entry, inside, rfl⟩ := List.mem_map.mp mem
    exact (clean entry inside).2

theorem extracted_map_nil (shape : t.shape = .map key value bucket) {c : Float} :
    Extracted s t (.mk c (.map [] [])) := by
  have clean : CleanEntries [] := fun _ none => nomatch none
  exact extracted_map shape clean

theorem extracted_ofFound (shape : t.shape = .map key value bucket) {found : Option Entries}
    {c : Float} (clean : ∀ entries, found = some entries → CleanEntries entries) :
    Extracted s t (ofFound found c) := by
  simp only [ofFound]
  split
  · exact .inl rfl
  · exact .inl rfl
  · exact extracted_map shape (clean _ rfl)

theorem Sound.legacyMap (sound : Sound s read) (shape : t.shape = .map key value bucket)
    (address : UInt64) : Ensures (legacyMap s read e address depth) (Extracted s t) := by
  have kind : t.kind = .map := congrArg Shape.kind shape
  rw [Extract.legacyMap]
  dsimp only
  split
  · split
    · exact ensures_pure (.inr ⟨Value.clean_unparsed _ _, .unparsed (by simp [kind])⟩)
    · split
      · exact ensures_pure (extracted_map_nil shape)
      · split
        · exact ensures_bad
        · split
          · exact ensures_bad
          · split
            · exact .after fun _ => ensures_bad
            · refine .after fun _ => ?_
              split
              · exact ensures_bad
              · exact (sound.buckets _ _ _ _ _ _).bind fun found clean =>
                  ensures_pure (extracted_ofFound shape clean)
  · exact ensures_bad

theorem Sound.swissMap (sound : Sound s read) (shape : t.shape = .map key value bucket)
    (address : UInt64) : Ensures (swissMap s read e address depth) (Extracted s t) := by
  have kind : t.kind = .map := congrArg Shape.kind shape
  rw [Extract.swissMap]
  dsimp only
  split
  · split
    · exact ensures_pure (.inr ⟨Value.clean_unparsed _ _, .unparsed (by simp [kind])⟩)
    · split
      · exact ensures_pure (extracted_map_nil shape)
      · split
        · exact (sound.group _).bind fun found clean =>
            ensures_pure (extracted_ofFound shape clean)
        · refine .after fun _ => ?_
          exact (sound.directory _ _).bind fun found clean =>
            ensures_pure (extracted_ofFound shape clean)
  · exact ensures_bad

end Maps

section Whole

/-- One step keeps the promise if the steps inside do. -/
theorem Sound.step (sound : Sound s read) (exact : s.memory.Exact) : Sound s (step s read) := by
  intro t address depth
  rw [Extract.step]
  split
  · next shape => exact ensures_pure ((plain_basic exact _ address).extracted shape)
  · next shape =>
    exact ensures_pure
      (.inr ⟨Value.clean_pointer _ _, .place (.inl (congrArg Shape.kind shape))⟩)
  · next shape =>
    exact ensures_pure
      (.inr ⟨Value.clean_pointer _ _, .place (.inr (congrArg Shape.kind shape))⟩)
  · next shape =>
    split
    · exact ensures_bad
    · next element => exact sound.arrayOf shape element _ address depth
  · next shape => exact sound.interface shape _ address depth
  · next shape =>
    split
    · exact ensures_bad
    · split
      · exact sound.swissMap shape address
      · exact sound.legacyMap shape address
  · next shape => exact sound.pointer shape address depth
  · next shape => exact sound.slice shape address depth
  · next shape => exact sound.struct shape address depth

theorem sound_within (exact : s.memory.Exact) (limit : Nat) : Sound s (within s limit) := by
  induction limit with
  | zero => exact fun _ _ _ _ _ _ come => nomatch come
  | succ limit ih => exact ih.step exact

/-- However deep the steps are nested and whatever was visited before, a value that comes out is bad
as a whole, without any confidence, or nothing bad occurs in it and it has the form that its type
asks for. -/
theorem within_conforms (exact : s.memory.Exact) {limit : Nat} {t : GoType} {address : UInt64}
    {depth : UInt32} {trace trace' : Trace} {v : Value}
    (come : within s limit t address depth trace = some (v, trace')) :
    v = .mk 0.0 .bad ∨ ((∀ u, Value.Part u v → u.isBad = false) ∧ Conforms s t v) :=
  sound_within exact limit t address depth trace v trace' come

end Whole

section Sample

def signedByte : GoType := .mk { size := 1, align := 1 } ⟨20, 20⟩ (.basic .int8)

/-- Two bytes with signs, and the byte type as the only node of the graph. -/
def signedPair : GoType :=
  .mk { size := 2, align := 1 } ⟨20, 20⟩ (.array ⟨0x500, some (.node 0x500)⟩ ⟨0, none⟩ 2)

/-- Memory that holds 127 and -1. -/
def pairSource : Source where
  memory := (MappedMemory.empty.map 0x2000 #[0x7F, 0xFF]).toMemory
  pointerWidth := 8
  graph := TypeGraph.empty.insert 0x500 signedByte
  settings := {}

/-- The pair is read as two integers, one of them extended by its sign. -/
theorem within_conforms_signedPair :
    pairSource.memory.Exact ∧ ∃ v trace', within pairSource 2 signedPair 0x2000 1 {} =
      some (v, trace') ∧ v.data = .array [.mk certain (.integer 0x7F true),
        .mk certain (.integer 0xFFFFFFFFFFFFFFFF true)] ∧
      (v = .mk 0.0 .bad ∨
        ((∀ u, Value.Part u v → u.isBad = false) ∧ Conforms pairSource signedPair v)) := by
  have exact := MappedMemory.exact (MappedMemory.empty.map 0x2000 #[0x7F, 0xFF])
  have come : within pairSource 2 signedPair 0x2000 1 {} =
      some (.mk (Value.meanConfidence [.mk certain (.integer 0x7F true),
        .mk certain (.integer 0xFFFFFFFFFFFFFFFF true)])
        (.array [.mk certain (.integer 0x7F true),
          .mk certain (.integer 0xFFFFFFFFFFFFFFFF true)]), {}) := by
    rfl
  exact ⟨exact, _, _, come, rfl, within_conforms exact come⟩

end Sample

end Extract

end GoInspect
