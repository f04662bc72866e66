import GoInspect.Extract.Map

/-!
# The entries of a bucket

Which values are buckets, and which of their slots are entries, is said here by rules along the
fields and along the slots. `bucketEntries?_eq_some_iff` says that the reader of buckets goes by
them.
-/

namespace GoInspect

namespace Extract

/-- The first field of a name holds an array of these elements. -/
inductive FieldArray (name : Text) (elements : List Value) : List Text → List Value → Prop where
  | here {value : Value} {names : List Text} {values : List Value} :
      value.data = .array elements → FieldArray name elements (name :: names) (value :: values)
  | later {other : Text} {value : Value} {names : List Text} {values : List Value} :
      other ≠ name → FieldArray name elements names values →
      FieldArray name elements (other :: names) (value :: values)

/-- The entries of slots, in the order of the slots. A slot is one where its top bits are an integer
other than 0, 1 and 4. -/
inductive Slots : (tops keys elems : List Value) → Entries → Prop where
  | nil : Slots [] [] [] []
  | taken {top key elem : Value} {raw : UInt64} {isSigned : Bool} {tops keys elems : List Value}
      {entries : Entries} : top.data = .integer raw isSigned → raw ≠ 0 ∧ raw ≠ 1 ∧ raw ≠ 4 →
      Slots tops keys elems entries →
      Slots (top :: tops) (key :: keys) (elem :: elems) ((key, elem) :: entries)
  | free {top key elem : Value} {tops keys elems : List Value} {entries : Entries} :
      (∀ raw isSigned, top.data = .integer raw isSigned → raw = 0 ∨ raw = 1 ∨ raw = 4) →
      Slots tops keys elems entries → Slots (top :: tops) (key :: keys) (elem :: elems) entries

/-- The fields of a bucket hold entries: three arrays of one length, which is not zero, are slots
with these entries. -/
def HasEntries (fields : List Text × List Value) (entries : Entries) : Prop :=
  ∃ tops keys elems, FieldArray (utf8 "topbits") tops fields.1 fields.2 ∧
    FieldArray (utf8 "keys") keys fields.1 fields.2 ∧
    FieldArray (utf8 "elems") elems fields.1 fields.2 ∧ tops ≠ [] ∧ Slots tops keys elems entries

/-- A value is a bucket with these entries. -/
def BucketEntries (value : Value) (entries : Entries) : Prop :=
  ∃ fields : List Text × List Value, value.data = .struct fields.1 fields.2 ∧
    HasEntries fields entries

/-- A value is no struct or has not the layout of a bucket. -/
def NoBucket (value : Value) : Prop := ∀ entries, ¬ BucketEntries value entries

theorem arrayElements?_eq_some_iff {value : Value} {elements : List Value} :
    arrayElements? value = some elements ↔ value.data = .array elements := by
  unfold arrayElements?
  split <;> simp_all

theorem structFields?_eq_some_iff {value : Value} {fields : List Text × List Value} :
    structFields? value = some fields ↔ value.data = .struct fields.1 fields.2 := by
  unfold structFields?
  split <;> simp_all [Prod.ext_iff]

theorem fieldArray_iff {name : Text} {elements : List Value} {names : List Text}
    {values : List Value} : FieldArray name elements names values ↔
      (Value.fieldOf? names values name).bind arrayElements? = some elements := by
  constructor
  · intro h
    induction h with
    | here data => simpa [Value.fieldOf?] using arrayElements?_eq_some_iff.mpr data
    | later other _ ih => simpa [Value.fieldOf?, other] using ih
  · induction names generalizing values with
    | nil => simp [Value.fieldOf?]
    | cons n names ih =>
        cases values with
        | nil => simp [Value.fieldOf?]
        | cons value values =>
            by_cases same : n = name
            · subst same
              intro found
              refine .here (arrayElements?_eq_some_iff.mp ?_)
              simpa [Value.fieldOf?] using found
            · intro found
              refine .later same (ih ?_)
              simpa [Value.fieldOf?, same] using found

theorem isTaken_iff {top : Value} : isTaken top = true ↔
    ∃ raw isSigned, top.data = .integer raw isSigned ∧ raw ≠ 0 ∧ raw ≠ 1 ∧ raw ≠ 4 := by
  unfold isTaken integerWord?
  cases top.data <;> simp [and_assoc]

theorem isTaken_eq_false_iff {top : Value} : isTaken top = false ↔
    ∀ raw isSigned, top.data = .integer raw isSigned → raw = 0 ∨ raw = 1 ∨ raw = 4 := by
  unfold isTaken integerWord?
  cases top.data <;> simp [Decidable.or_iff_not_imp_left]

theorem slots_iff {tops keys elems : List Value} {entries : Entries} :
    Slots tops keys elems entries ↔ keys.length = tops.length ∧ elems.length = tops.length ∧
      entries = (tops.zip (keys.zip elems)).filterMap fun (top, entry) =>
        if isTaken top then some entry else none := by
  constructor
  · intro h
    induction h with
    | nil => exact ⟨rfl, rfl, rfl⟩
    | taken data marks _ ih =>
        have full := isTaken_iff.mpr ⟨_, _, data, marks⟩
        obtain ⟨keys, elems, rfl⟩ := ih
        simp [keys, elems, full]
    | @free top _ _ _ _ _ _ marks _ ih =>
        have empty := isTaken_eq_false_iff.mpr marks
        obtain ⟨keys, elems, rfl⟩ := ih
        simp [keys, elems, empty]
  · rintro ⟨sameKeys, sameElems, rfl⟩
    induction tops generalizing keys elems with
    | nil =>
        obtain rfl := List.eq_nil_of_length_eq_zero sameKeys
        obtain rfl := List.eq_nil_of_length_eq_zero sameElems
        exact .nil
    | cons top tops ih =>
        obtain ⟨key, keys, rfl⟩ := List.exists_cons_of_length_eq_add_one sameKeys
        obtain ⟨elem, elems, rfl⟩ := List.exists_cons_of_length_eq_add_one sameElems
        have rest := ih (Nat.succ.inj sameKeys) (Nat.succ.inj sameElems)
        simp only [List.zip_cons_cons, List.filterMap_cons]
        cases full : isTaken top with
        | true =>
            obtain ⟨raw, isSigned, data, marks⟩ := isTaken_iff.mp full
            exact .taken data marks rest
        | false => exact .free (isTaken_eq_false_iff.mp full) rest

/-- The reader of buckets finds the entries of those that have the layout. -/
theorem bucketEntries?_eq_some_iff {fields : List Text × List Value} {entries : Entries} :
    bucketEntries? fields = some entries ↔ HasEntries fields entries := by
  have parts : bucketEntries? fields =
      (do
        let tops ← (Value.fieldOf? fields.1 fields.2 (utf8 "topbits")).bind arrayElements?
        let keys ← (Value.fieldOf? fields.1 fields.2 (utf8 "keys")).bind arrayElements?
        let elems ← (Value.fieldOf? fields.1 fields.2 (utf8 "elems")).bind arrayElements?
        if tops.isEmpty ∨ keys.length ≠ tops.length ∨ elems.length ≠ tops.length then none
        else
          pure ((tops.zip (keys.zip elems)).filterMap fun (top, entry) =>
            if isTaken top then some entry else none)) := by
    simp only [bucketEntries?, Option.bind_eq_bind, Option.bind_assoc]
  rw [parts]
  simp only [HasEntries, fieldArray_iff, slots_iff, Option.bind_eq_bind, Option.bind_eq_some_iff]
  constructor
  · rintro ⟨tops, topbits, keys, keyed, elems, elemed, found⟩
    split at found
    · cases found
    · next layout =>
      simp only [not_or, Decidable.not_not, List.isEmpty_iff] at layout
      exact ⟨tops, keys, elems, topbits, keyed, elemed, layout.1, layout.2.1, layout.2.2,
        (Option.some.inj found).symm⟩
  · rintro ⟨tops, keys, elems, topbits, keyed, elemed, some, sameKeys, sameElems, rfl⟩
    refine ⟨tops, topbits, keys, keyed, elems, elemed, if_neg ?_⟩
    simp only [not_or, Decidable.not_not, List.isEmpty_iff]
    exact ⟨some, sameKeys, sameElems⟩

/-- The fields of a struct that is no bucket have not the layout of one. -/
theorem NoBucket.bucketEntries? {value : Value} {fields : List Text × List Value}
    (h : NoBucket value) (struct : structFields? value = some fields) :
    bucketEntries? fields = none := by
  refine Option.eq_none_iff_forall_ne_some.mpr fun entries found => h entries ?_
  exact ⟨fields, structFields?_eq_some_iff.mp struct, bucketEntries?_eq_some_iff.mp found⟩

end Extract

end GoInspect
