import GoInspect.Proofs.GoType.Syntax

/-!
# Where the fields of built structs lie

A struct that is built from its text lays its fields out one behind the other. Sizes come from the
text and can be any word, and the places are sums of words, which wrap. `stopAfter` counts the same
places without bound. The fields of a struct are apart and inside it exactly if that count stays
below 2^64; that they are aligned, and that the struct is padded, holds in any case.
-/

namespace GoInspect

section Rounding

variable {m : Nat}

theorem le_nextMultiple (h : IsAlignment m) (n : Nat) : n ≤ nextMultiple n m :=
  le_nextMultiple_of_pos h.pos n

theorem nextMultiple_le_of_dvd (h : IsAlignment m) {n k : Nat} (dvd : m ∣ k) (le : n ≤ k) :
    nextMultiple n m ≤ k := by
  rw [nextMultiple]
  rcases h with rfl | rfl | rfl | rfl <;> omega

theorem toNat_roundUp (h : IsAlignment m) (n : UInt64) :
    (roundUp n (UInt64.ofNat m)).toNat = nextMultiple n.toNat m % 2 ^ 64 := by
  have counted := roundUp_ofNat h n.toNat
  rw [UInt64.ofNat_toNat] at counted
  rw [counted, UInt64.toNat_ofNat']

/-- Multiples of alignments stay multiples where they wrap. -/
theorem dvd_roundUp (h : IsAlignment m) (n : UInt64) :
    m ∣ (roundUp n (UInt64.ofNat m)).toNat := by
  rw [toNat_roundUp h]
  exact (Nat.dvd_mod_iff h.dvd_word).mpr (dvd_nextMultiple _ _)

/-- What is rounded up past the last word becomes zero, and no other word gets smaller. -/
theorem le_roundUp_iff (h : IsAlignment m) (n : UInt64) :
    n.toNat ≤ (roundUp n (UInt64.ofNat m)).toNat ↔ nextMultiple n.toNat m < 2 ^ 64 := by
  have above := le_nextMultiple h n.toNat
  have below := nextMultiple_le_of_dvd h h.dvd_word (Nat.le_of_lt n.toNat_lt)
  rw [toNat_roundUp h]
  constructor
  · intro le
    by_contra past
    have top : nextMultiple n.toNat m = 2 ^ 64 := Nat.le_antisymm below (Nat.not_lt.mp past)
    rw [top, Nat.mod_self, Nat.le_zero] at le
    rw [le, nextMultiple] at top
    rcases h with rfl | rfl | rfl | rfl <;> omega
  · intro inside
    rwa [Nat.mod_eq_of_lt inside]

end Rounding

namespace TypeSyntax

abbrev TypedField := Field (TypeRef GoType) × GoType

def TypedField.stop (f : TypedField) : Nat := f.1.offset.toNat + f.2.size.toNat

/-- A struct type is laid out well: no field overlaps another one or reaches beyond the struct, and
everything lies where its alignment says. -/
structure LaidOut (struct : GoType) (fields : List TypedField) : Prop where
  aligned : ∀ f ∈ fields, f.2.align.toNat ∣ f.1.offset.toNat
  apart : fields.IsChain fun f next => f.stop ≤ next.1.offset.toNat
  inside : ∀ f ∈ fields.getLast?, f.stop ≤ struct.size.toNat
  padded : struct.align.toNat ∣ struct.size.toNat
  common : ∀ f ∈ fields, f.2.align.toNat ∣ struct.align.toNat

/-- Where objects of some types end that lie one behind the other from a place on, counted without
bound. -/
def stopAfter : (start : Nat) → List GoType → Nat
  | start, [] => start
  | start, t :: rest => stopAfter (nextMultiple start t.align.toNat + t.size.toNat) rest

/-- A field whose type was built, with that type. -/
def typed? (f : Field (TypeRef GoType)) : Option TypedField :=
  (TypeGraph.empty.deref? f.type).map fun t => (f, t)

section Between

variable {start stop : Nat} {fields : List TypedField}

/-- Fields lie one behind the other from a place on up to another one. -/
def Between (start : Nat) : List TypedField → (stop : Nat) → Prop
  | [], stop => start ≤ stop
  | f :: rest, stop => start ≤ f.1.offset.toNat ∧ Between f.stop rest stop

theorem Between.le (h : Between start fields stop) : start ≤ stop := by
  induction fields generalizing start with
  | nil => exact h
  | cons f rest ih =>
      have here : start ≤ f.stop := h.1.trans (Nat.le_add_right _ _)
      exact here.trans (ih h.2)

theorem between_cons_iff {f : TypedField} : Between start (f :: fields) stop ↔
    start ≤ f.1.offset.toNat ∧
      (List.IsChain (fun f next : TypedField => f.stop ≤ next.1.offset.toNat) (f :: fields)) ∧
        ∀ last ∈ (f :: fields).getLast?, last.stop ≤ stop := by
  induction fields generalizing start f with
  | nil => simp [Between]
  | cons next rest ih =>
      rw [Between, ih, List.isChain_cons_cons, List.getLast?_cons_cons, and_assoc]

end Between

section Places

variable {version : VersionBound} {p : UInt32}

/-- Fields of built types with their types, the first one no earlier than at `start`. -/
def typedFrom : (start : UInt64) → List (Text × GoType) → List TypedField
  | _, [] => []
  | start, (name, t) :: rest =>
    (⟨name, reference (.built t), roundUp start t.align⟩, t) ::
      typedFrom (roundUp start t.align + t.size) rest

theorem mapM_typed? (start : UInt64) (members : List (Text × GoType)) :
    (fieldsFrom start members).mapM typed? = some (typedFrom start members) := by
  induction members generalizing start with
  | nil => rfl
  | cons first rest ih =>
      obtain ⟨name, t⟩ := first
      rw [fieldsFrom, List.mapM_cons, ih]
      rfl

theorem map_typedFrom (start : UInt64) (members : List (Text × GoType)) :
    (typedFrom start members).map Prod.snd = members.map Prod.snd := by
  induction members generalizing start with
  | nil => rfl
  | cons first rest ih => exact congrArg (first.2 :: ·) (ih _)

theorem le_stopAfter {start : Nat} {types : List GoType}
    (aligned : ∀ t ∈ types, IsAlignment t.align.toNat) : start ≤ stopAfter start types := by
  induction types generalizing start with
  | nil => exact Nat.le_refl start
  | cons t rest ih =>
      obtain ⟨here, later⟩ := List.forall_mem_cons.mp aligned
      exact ((le_nextMultiple here start).trans (Nat.le_add_right _ _)).trans (ih later)

theorem dvd_offset {start : UInt64} {members : List (Text × GoType)}
    (aligned : ∀ f ∈ members, ∃ m, IsAlignment m ∧ f.2.align = UInt64.ofNat m) :
    ∀ f ∈ typedFrom start members, f.2.align.toNat ∣ f.1.offset.toNat := by
  induction members generalizing start with
  | nil => exact fun _ none => nomatch none
  | cons first rest ih =>
      obtain ⟨⟨m, hm, eq⟩, later⟩ := List.forall_mem_cons.mp aligned
      refine List.forall_mem_cons.mpr ⟨?_, ih later⟩
      show first.2.align.toNat ∣ (roundUp start first.2.align).toNat
      rw [eq, hm.toNat_ofNat]
      exact dvd_roundUp hm start

/-- The common alignment of fields is a multiple of the alignment of each. -/
theorem dvd_align_addAll {l : Layout} {members : List (Text × GoType)} {m : Nat}
    (hm : IsAlignment m) (start : l.align = UInt64.ofNat m)
    (aligned : ∀ f ∈ members, ∃ n, IsAlignment n ∧ f.2.align = UInt64.ofNat n) :
    m ∣ (l.addAll members).align.toNat ∧
      ∀ f ∈ members, f.2.align.toNat ∣ (l.addAll members).align.toNat := by
  induction members generalizing l m with
  | nil =>
      refine ⟨?_, fun _ none => nomatch none⟩
      show m ∣ l.align.toNat
      rw [start, hm.toNat_ofNat]
  | cons first rest ih =>
      obtain ⟨⟨n, hn, eq⟩, later⟩ := List.forall_mem_cons.mp aligned
      have common : (l.add first.1 (.built first.2) first.2).align = UInt64.ofNat (max m n) := by
        show commonAlign l.align first.2.align = _
        rw [start, eq, commonAlign_ofNat hm hn]
      obtain ⟨both, others⟩ := ih (hm.max hn) common later
      have before : m ∣ max m n := hm.dvd_of_le (hm.max hn) (Nat.le_max_left m n)
      have here : n ∣ max m n := hn.dvd_of_le (hm.max hn) (Nat.le_max_right m n)
      refine ⟨before.trans both, List.forall_mem_cons.mpr ⟨?_, others⟩⟩
      rw [eq, hn.toNat_ofNat]
      exact here.trans both

/-- Fields lie between their places exactly if nothing wraps on the way to the padded end. -/
theorem between_typedFrom_iff {l : Layout} {members : List (Text × GoType)} {m : Nat}
    (hm : IsAlignment m)
    (aligned : ∀ f ∈ members, ∃ n, IsAlignment n ∧ f.2.align = UInt64.ofNat n) :
    Between l.stop.toNat (typedFrom l.stop members)
        (roundUp (l.addAll members).stop (UInt64.ofNat m)).toNat ↔
      nextMultiple (stopAfter l.stop.toNat (members.map Prod.snd)) m < 2 ^ 64 := by
  induction members generalizing l with
  | nil => exact le_roundUp_iff hm l.stop
  | cons first rest ih =>
      obtain ⟨⟨n, hn, eq⟩, later⟩ := List.forall_mem_cons.mp aligned
      obtain ⟨name, t⟩ := first
      dsimp only at eq
      have word : t.align.toNat = n := by rw [eq, hn.toNat_ofNat]
      have others : ∀ u ∈ rest.map Prod.snd, IsAlignment u.align.toNat := by
        intro u mem
        obtain ⟨f, inside, rfl⟩ := List.mem_map.mp mem
        obtain ⟨k, hk, same⟩ := later f inside
        rwa [same, hk.toNat_ofNat]
      have place : (roundUp l.stop t.align).toNat = nextMultiple l.stop.toNat n % 2 ^ 64 := by
        rw [eq, toNat_roundUp hn]
      have fits : l.stop.toNat ≤ (roundUp l.stop t.align).toNat ↔
          nextMultiple l.stop.toNat n < 2 ^ 64 := by
        rw [eq, le_roundUp_iff hn]
      rw [Layout.addAll_cons, typedFrom, Between, List.map_cons, stopAfter, word, fits]
      by_cases small : nextMultiple l.stop.toNat n + t.size.toNat < 2 ^ 64
      · have inside : nextMultiple l.stop.toNat n < 2 ^ 64 := Nat.lt_of_add_right_lt small
        rw [Nat.mod_eq_of_lt inside] at place
        have stop : (l.add name (.built t) t).stop.toNat =
            nextMultiple l.stop.toNat n + t.size.toNat := by
          show (roundUp l.stop t.align + t.size).toNat = _
          rw [UInt64.toNat_add, place, Nat.mod_eq_of_lt small]
        have rest := ih (l := l.add name (.built t) t) later
        rw [stop] at rest
        rw [TypedField.stop, place, and_iff_right inside]
        exact rest
      · -- The sum is past the last word, so no place is at or behind it.
        have past : ¬ nextMultiple (stopAfter (nextMultiple l.stop.toNat n + t.size.toNat)
            (rest.map Prod.snd)) m < 2 ^ 64 := by
          have behind : nextMultiple l.stop.toNat n + t.size.toNat ≤ stopAfter _ _ :=
            le_stopAfter others
          have padded := le_nextMultiple hm (stopAfter (nextMultiple l.stop.toNat n +
            t.size.toNat) (rest.map Prod.snd))
          exact fun below => small ((behind.trans padded).trans_lt below)
        refine iff_of_false ?_ past
        rintro ⟨inside, between⟩
        rw [Nat.mod_eq_of_lt inside] at place
        have le := between.le
        rw [TypedField.stop, place] at le
        exact small (le.trans_lt (UInt64.toNat_lt _))

theorem inside_iff {struct : GoType} {fields : List TypedField} :
    Between 0 fields struct.size.toNat ↔
      (fields.IsChain fun f next => f.stop ≤ next.1.offset.toNat) ∧
        ∀ f ∈ fields.getLast?, f.stop ≤ struct.size.toNat := by
  cases fields with
  | nil => simp [Between]
  | cons f rest => rw [between_cons_iff, and_iff_right (Nat.zero_le _)]

/-- The structs that texts stand for over an empty graph. Every field lies at a multiple of its
alignment, the alignment of the struct is a multiple of that of every field, and its size one of its
own alignment. The fields are apart and inside the struct exactly if the place where the padded
struct ends, counted without bound, is a word. -/
theorem parse_laidOut_iff (wide : p = 4 ∨ p = 8) {t : Text} {b : GoType}
    {declared : List (Field (TypeRef GoType))}
    (read : parse .empty version p t = some (.built b)) (shape : b.shape = .struct declared) :
    ∃ fields, declared.mapM typed? = some fields ∧
      (∀ f ∈ fields, f.2.align.toNat ∣ f.1.offset.toNat) ∧
      (∀ f ∈ fields, f.2.align.toNat ∣ b.align.toNat) ∧
      b.align.toNat ∣ b.size.toNat ∧
      (LaidOut b fields ↔
        nextMultiple (stopAfter 0 (fields.map Prod.snd)) b.align.toNat < 2 ^ 64) := by
  obtain ⟨_, same, built⟩ := parse_built read
  cases same
  obtain ⟨members, all, rfl, size, align⟩ := built.of_struct wide shape
  have aligned := fun f mem => (all f mem).exists_align wide
  obtain ⟨m, hm, eq⟩ := exists_align_addAll (l := {}) (m := 1) (by decide) rfl aligned
  have word : b.align.toNat = m := by rw [align, eq, hm.toNat_ofNat]
  have total : b.size = roundUp (Layout.addAll {} members).stop (UInt64.ofNat m) := by
    rw [size, eq]
  have offsets : ∀ f ∈ typedFrom 0 members, f.2.align.toNat ∣ f.1.offset.toNat :=
    dvd_offset aligned
  have common : ∀ f ∈ typedFrom 0 members, f.2.align.toNat ∣ b.align.toNat := by
    intro f mem
    have type : f.2 ∈ members.map Prod.snd :=
      map_typedFrom 0 members ▸ List.mem_map_of_mem mem
    obtain ⟨member, inside, same⟩ := List.mem_map.mp type
    rw [← same, align]
    exact (dvd_align_addAll (l := {}) (m := 1) (by decide) rfl aligned).2 member inside
  have padded : b.align.toNat ∣ b.size.toNat := by
    rw [word, total]
    exact dvd_roundUp hm _
  refine ⟨_, mapM_typed? 0 members, offsets, common, padded, ?_⟩
  have between := between_typedFrom_iff (l := {}) hm aligned
  rw [← total] at between
  rw [word, map_typedFrom]
  refine Iff.trans ⟨fun laid => ?_, fun inside => ?_⟩ between
  · exact inside_iff.mpr ⟨laid.apart, laid.inside⟩
  · obtain ⟨apart, last⟩ := inside_iff.mp inside
    exact ⟨offsets, apart, last, padded, common⟩

section Wrapping

/-- As many bytes as a word can count, and a number behind them. -/
def wrappingText : Text := utf8 "struct \x7b a [18446744073709551615]uint8; b int64 \x7d"

def byteType : GoType := make ⟨20, 20⟩ (utf8 "uint8") (.basic .uint8) 1 1

def numberType : GoType := make ⟨20, 20⟩ (utf8 "int64") (.basic .int64) 8 8

def bytesType : GoType :=
  make ⟨20, 20⟩ (utf8 "[18446744073709551615]uint8")
    (.array (reference (.built byteType)) ⟨0, none⟩ 0xFFFFFFFFFFFFFFFF) 0xFFFFFFFFFFFFFFFF 1

def wrappingMembers : List (Text × GoType) := [(utf8 "a", bytesType), (utf8 "b", numberType)]

def wrappingStruct : GoType :=
  structOf ⟨20, 20⟩ wrappingText (Layout.addAll {} wrappingMembers)

theorem parse_bytes : parse .empty ⟨20, 20⟩ 8 (utf8 "[18446744073709551615]uint8") =
    some (.built bytesType) := by
  have element : parse .empty ⟨20, 20⟩ 8 (utf8 "uint8") = some (.built byteType) :=
    parse_basic rfl rfl
  have parts : Text.cut? 93 ((utf8 "[18446744073709551615]uint8").drop 1) =
      some (utf8 "18446744073709551615", utf8 "uint8") := rfl
  rw [parse_array rfl rfl (by decide) (by decide) parts, element]
  rfl

theorem parse_wrapping :
    parse .empty ⟨20, 20⟩ 8 wrappingText = some (.built wrappingStruct) := by
  have number : parse .empty ⟨20, 20⟩ 8 (utf8 "int64") = some (.built numberType) :=
    parse_basic rfl rfl
  have first : member? .empty ⟨20, 20⟩ 8 (utf8 "a [18446744073709551615]uint8") =
      some (utf8 "a", .built bytesType) :=
    congrArg (Option.map (Prod.mk (utf8 "a"))) parse_bytes
  have second : member? .empty ⟨20, 20⟩ 8 (utf8 " b int64") =
      some (utf8 "b", .built numberType) :=
    congrArg (Option.map (Prod.mk (utf8 "b"))) number
  have body : structBody? wrappingText =
      some (utf8 "a [18446744073709551615]uint8; b int64") := by decide
  have pieces : declarations (utf8 "a [18446744073709551615]uint8; b int64") =
      [utf8 "a [18446744073709551615]uint8", utf8 " b int64"] := by decide
  rw [parse_struct rfl rfl (by decide) (by decide) (by decide), body, Option.bind_some, pieces,
    List.mapM_cons, List.mapM_cons, first, second]
  rfl

/-- The number is put at the place of the bytes. -/
theorem parse_laidOut_iff_wrapping :
    parse .empty ⟨20, 20⟩ 8 wrappingText = some (.built wrappingStruct) ∧
      wrappingStruct.shape = .struct (Layout.addAll {} wrappingMembers).fields ∧
      wrappingStruct.size = 8 ∧
      ∃ fields, (Layout.addAll {} wrappingMembers).fields.mapM typed? = some fields ∧
        fields.map (fun f => (f.1.offset, f.2.size)) = [(0, 0xFFFFFFFFFFFFFFFF), (0, 8)] ∧
        ¬ LaidOut wrappingStruct fields := by
  obtain ⟨fields, typed, _, _, _, iff⟩ :=
    parse_laidOut_iff (.inr rfl) parse_wrapping rfl
  refine ⟨parse_wrapping, rfl, rfl, fields, typed, ?_, ?_⟩
  · cases typed
    rfl
  · rw [iff]
    cases typed
    decide

end Wrapping

end Places

end TypeSyntax

end GoInspect
