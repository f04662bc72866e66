import GoInspect.GoType.Syntax
import GoInspect.Proofs.Text
import GoInspect.Proofs.Traversal
import Mathlib.Algebra.Order.Ring.Int

/-!
# What type texts stand for

Over an empty graph a text stands for a built type, if it stands for anything. `Built` lists those
types, by how each is made of others and without the texts they come from. What is to be known about
them, their size, their alignment and the places of their fields, follows from that list.

Sizes and places are words of 64 bits, which may wrap. Alignments are powers of two, so that
rounding up commutes with wrapping: every size and place is the wrapped number that counting without
bound gives.
-/

namespace GoInspect

/-- The least multiple of the second number that is not below the first. -/
def nextMultiple (n m : Nat) : Nat := (n + m - 1) / m * m

/-- The alignments that types have. -/
def IsAlignment (m : Nat) : Prop := m = 1 ∨ m = 2 ∨ m = 4 ∨ m = 8

instance (m : Nat) : Decidable (IsAlignment m) :=
  inferInstanceAs (Decidable (m = 1 ∨ m = 2 ∨ m = 4 ∨ m = 8))

section Alignment

variable {m n : Nat}

theorem IsAlignment.max (hm : IsAlignment m) (hn : IsAlignment n) : IsAlignment (max m n) := by
  rcases Nat.le_total m n with le | le
  · rwa [Nat.max_eq_right le]
  · rwa [Nat.max_eq_left le]

theorem IsAlignment.pos (h : IsAlignment m) : 0 < m := by
  rcases h with rfl | rfl | rfl | rfl <;> decide

theorem IsAlignment.le_eight (h : IsAlignment m) : m ≤ 8 := by
  rcases h with rfl | rfl | rfl | rfl <;> decide

/-- The larger one of two alignments is a multiple of the other one. -/
theorem IsAlignment.dvd_of_le (hm : IsAlignment m) (hn : IsAlignment n) (le : m ≤ n) : m ∣ n := by
  rcases hm with rfl | rfl | rfl | rfl <;> rcases hn with rfl | rfl | rfl | rfl <;> omega

theorem IsAlignment.toNat_ofNat (h : IsAlignment m) : (UInt64.ofNat m).toNat = m := by
  rcases h with rfl | rfl | rfl | rfl <;> rfl

theorem IsAlignment.dvd_word (h : IsAlignment m) : m ∣ 2 ^ 64 := by
  rcases h with rfl | rfl | rfl | rfl <;> decide

theorem dvd_nextMultiple (n m : Nat) : m ∣ nextMultiple n m := Nat.dvd_mul_left m _

theorem le_nextMultiple_of_pos (positive : 0 < m) (n : Nat) : n ≤ nextMultiple n m := by
  have parts := Nat.div_add_mod' (n + m - 1) m
  have rest := Nat.mod_lt (n + m - 1) positive
  rw [nextMultiple]
  omega

theorem roundUp_ofNat (h : IsAlignment m) (n : Nat) :
    roundUp (UInt64.ofNat n) (UInt64.ofNat m) = UInt64.ofNat (nextMultiple n m) := by
  have nonzero : UInt64.ofNat m ≠ 0 := by
    intro zero
    have none : (0 : UInt64).toNat = m := zero ▸ h.toNat_ofNat
    exact absurd none.symm (Nat.ne_of_gt h.pos)
  have sum : UInt64.ofNat n + UInt64.ofNat m - 1 = UInt64.ofNat (n + m - 1) := by
    rw [← UInt64.ofNat_add, UInt64.ofNat_sub (Nat.le_add_left_of_le h.pos)]
    rfl
  rw [roundUp, if_neg nonzero, sum]
  apply UInt64.toNat_inj.mp
  rw [UInt64.toNat_mul, UInt64.toNat_div, h.toNat_ofNat, UInt64.toNat_ofNat', UInt64.toNat_ofNat',
    nextMultiple]
  rcases h with rfl | rfl | rfl | rfl <;> omega

end Alignment

namespace TypeSyntax

variable {version : VersionBound} {p : UInt32}

theorem commonAlign_ofNat {m n : Nat} (hm : IsAlignment m) (hn : IsAlignment n) :
    commonAlign (UInt64.ofNat m) (UInt64.ofNat n) = UInt64.ofNat (max m n) := by
  rcases hm with rfl | rfl | rfl | rfl <;> rcases hn with rfl | rfl | rfl | rfl <;> rfl

/-- Alignments fit into the byte that is kept of them. -/
theorem align_make (name : Text) (shape : Shape (TypeRef GoType)) (size : UInt64) {m : Nat}
    (h : IsAlignment m) :
    (make version name shape size (UInt64.ofNat m)).align = UInt64.ofNat m := by
  rcases h with rfl | rfl | rfl | rfl <;> rfl

/-- The layout with fields of built types behind the others. -/
def Layout.addAll : Layout → List (Text × GoType) → Layout
  | l, [] => l
  | l, (name, t) :: rest => (l.add name (.built t) t).addAll rest

@[simp] theorem Layout.addAll_cons (l : Layout) (name : Text) (t : GoType)
    (rest : List (Text × GoType)) :
    l.addAll ((name, t) :: rest) = (l.add name (.built t) t).addAll rest := rfl

/-- Fields of built types, the first one of them no earlier than at `start`. -/
def fieldsFrom : (start : UInt64) → List (Text × GoType) → List (Field (TypeRef GoType))
  | _, [] => []
  | start, (name, t) :: rest =>
    ⟨name, reference (.built t), roundUp start t.align⟩ ::
      fieldsFrom (roundUp start t.align + t.size) rest

theorem Layout.fields_addAll (l : Layout) (members : List (Text × GoType)) :
    (l.addAll members).fields = l.fields ++ fieldsFrom l.stop members := by
  induction members generalizing l with
  | nil => exact (List.append_nil _).symm
  | cons first rest ih =>
      obtain ⟨name, t⟩ := first
      rw [addAll_cons, ih]
      exact List.append_assoc _ _ _

def Room.size (p : UInt32) : Room → UInt64
  | .bytes size _ => size
  | .words count => count * p.toUInt64

def Room.align (p : UInt32) : Room → UInt64
  | .bytes _ align => align
  | .words _ => p.toUInt64

theorem basic?_eq_some {t : Text} {b : GoType} (h : basic? version p t = some b) :
    ∃ kind room, (kind, room) ∈ basicTypes ∧
      b = make version t (.basic kind) (room.size p) (room.align p) := by
  obtain ⟨⟨kind, room⟩, found, rfl⟩ := Option.map_eq_some_iff.mp h
  refine ⟨kind, room, List.mem_of_find?_eq_some found, ?_⟩
  cases room <;> rfl

theorem arrayOf?_eq_some {t : Text} {length : UInt64} {handle : TypeHandle GoType} {e b : GoType}
    (h : arrayOf? version t length handle e = some b) :
    b = make version t (.array (reference handle) ⟨0, none⟩ length)
      (length * roundUp e.size e.align) e.align := by
  rw [arrayOf?] at h
  split at h
  · cases h
  · cases h
    rfl

variable (version p) in
/-- A type that a text can stand for where no graph gives it. -/
inductive Built : GoType → Prop where
  | basic {t : Text} {b : GoType} : basic? version p t = some b → Built b
  /-- Functions and channels are taken as plain words. -/
  | function (t : Text) : Built (word version p t (.basic .uintptr))
  | pointer (t : Text) {e : GoType} : Built e →
      Built (word version p t (.pointer (reference (.built e))))
  | slice (t : Text) {e : GoType} : Built e →
      Built (make version t (.slice (reference (.built e))) (3 * p).toUInt64 p.toUInt64)
  | array {t : Text} {length : UInt64} {e b : GoType} : Built e →
      arrayOf? version t length (.built e) e = some b → Built b
  | struct (t : Text) {members : List (Text × GoType)} : (∀ f ∈ members, Built f.2) →
      Built (structOf version t (Layout.addAll {} members))
  | map (t : Text) {key element bucket : GoType} : Built key → Built element → Built bucket →
      Built (word version p t (.map (reference (.built key)) (reference (.built element))
        (reference (.built bucket))))

theorem layout?_built {l l' : Layout} {declared : List (Text × TypeHandle GoType)}
    (all : ∀ f ∈ declared, ∃ b, f.2 = .built b ∧ Built version p b)
    (h : layout? .empty l declared = some l') :
    ∃ members : List (Text × GoType), (∀ f ∈ members, Built version p f.2) ∧
      l' = l.addAll members := by
  induction declared generalizing l with
  | nil =>
      cases h
      exact ⟨[], fun _ none => (nomatch none), rfl⟩
  | cons first rest ih =>
      obtain ⟨name, handle⟩ := first
      obtain ⟨b, rfl, built⟩ := all _ List.mem_cons_self
      obtain ⟨members, inside, eq⟩ := ih (fun f mem => all f (List.mem_cons_of_mem _ mem)) h
      refine ⟨(name, b) :: members, ?_, eq⟩
      rintro f (_ | ⟨_, mem⟩)
      · exact built
      · exact inside f mem

/-- Over an empty graph all that texts stand for is built. -/
theorem parse_built {t : Text} {handle : TypeHandle GoType}
    (h : parse .empty version p t = some handle) :
    ∃ b, handle = .built b ∧ Built version p b := by
  fun_induction parse .empty version p t generalizing handle with
  | case1 t address named => cases named
  | case2 t _ b found =>
      cases h
      exact ⟨b, rfl, .basic found⟩
  | case4 t _ _ _ elem found ih =>
      cases h
      obtain ⟨e, rfl, built⟩ := ih found
      exact ⟨_, rfl, .slice t built⟩
  | case8 t _ _ _ _ lengthText elementText _ length _ elem found ih =>
      obtain ⟨e, rfl, built⟩ := ih found
      obtain ⟨b, fits, rfl⟩ := Option.map_eq_some_iff.mp h
      exact ⟨b, rfl, .array built fits⟩
  | case10 t _ _ _ _ _ elem found ih =>
      cases h
      obtain ⟨e, rfl, built⟩ := ih found
      exact ⟨_, rfl, .pointer t built⟩
  | case12 t _ _ _ _ _ _ body _ declared =>
      rename_i ih
      -- The step for a declaration is one for its text, so each field is built by induction.
      obtain ⟨l, laid, rfl⟩ := Option.map_eq_some_iff.mp h
      obtain ⟨found, steps, laid⟩ := Option.bind_eq_some_iff.mp laid
      have all : ∀ f ∈ found, ∃ b, f.2 = .built b ∧ Built version p b := by
        intro f mem
        obtain ⟨⟨text, inside⟩, _, step⟩ := exists_of_mapM steps mem
        dsimp only at step
        split at step
        · cases step
        · next name typeText declaration =>
          obtain ⟨handle, read, rfl⟩ := Option.map_eq_some_iff.mp step
          exact ih text inside name typeText declaration read
      obtain ⟨members, inside, rfl⟩ := layout?_built all laid
      exact ⟨_, rfl, .struct t inside⟩
  | case14 t _ _ _ _ _ _ _ keyText elementText _ key element second first ihKey ihElement
      ihBucket =>
      obtain ⟨key, rfl, builtKey⟩ := ihKey first
      obtain ⟨element, rfl, builtElement⟩ := ihElement second
      obtain ⟨bucket, third, rfl⟩ := Option.map_eq_some_iff.mp h
      obtain ⟨bucket, rfl, builtBucket⟩ := ihBucket third
      exact ⟨_, rfl, .map t builtKey builtElement builtBucket⟩
  | case16 t =>
      cases h
      exact ⟨_, rfl, .function t⟩
  | case3 | case5 | case6 | case7 | case9 | case11 | case13 | case15 | case17 => cases h

section Forms

variable {g : TypeGraph} {t : Text}

theorem basic?_eq_none {start : Text} (h : start.isPrefixOf t)
    (other : ∀ entry ∈ basicTypes, start.isPrefixOf entry.1.spelling = false) :
    basic? version p t = none := by
  rw [basic?, Option.map_eq_none_iff, List.find?_eq_none]
  intro entry mem same
  rw [← eq_of_beq same, other entry mem] at h
  cases h

theorem parse_basic (unnamed : g.addressOfName? t = none) {b : GoType}
    (h : basic? version p t = some b) : parse g version p t = some (.built b) := by
  rw [parse, unnamed, h]

theorem parse_slice (unnamed : g.addressOfName? t = none) (other : basic? version p t = none)
    (start : (utf8 "[]").isPrefixOf t) :
    parse g version p t = (parse g version p (t.drop 2)).map fun element =>
      .built (make version t (.slice (reference element)) (3 * p).toUInt64 p.toUInt64) := by
  rw [parse, unnamed, other]
  dsimp only
  rw [dif_pos start]
  cases parse g version p (t.drop 2) <;> rfl

theorem parse_array {lengthText elementText : Text} (unnamed : g.addressOfName? t = none)
    (other : basic? version p t = none) (notSlice : ¬(utf8 "[]").isPrefixOf t)
    (start : (utf8 "[").isPrefixOf t)
    (parts : Text.cut? 93 (t.drop 1) = some (lengthText, elementText)) :
    parse g version p t = lengthText.toUInt64?.bind fun length =>
      (parse g version p elementText).bind fun element =>
        (g.lookup? element).bind fun e => (arrayOf? version t length element e).map .built := by
  rw [parse, unnamed, other]
  dsimp only
  rw [dif_neg notSlice, dif_pos start]
  split
  · next cut => cases parts.symm.trans cut
  · next cut =>
    cases parts.symm.trans cut
    cases lengthText.toUInt64? with
    | none => rfl
    | some length => cases parse g version p elementText <;> rfl

theorem parse_pointer (unnamed : g.addressOfName? t = none) (other : basic? version p t = none)
    (notArray : ¬(utf8 "[").isPrefixOf t) (start : (utf8 "*").isPrefixOf t) :
    parse g version p t = (parse g version p (t.drop 1)).map fun element =>
      .built (word version p t (.pointer (reference element))) := by
  have notSlice : ¬(utf8 "[]").isPrefixOf t :=
    fun slice => notArray (Text.isPrefixOf_of_append slice)
  rw [parse, unnamed, other]
  dsimp only
  rw [dif_neg notSlice, dif_neg notArray, dif_pos start]
  cases parse g version p (t.drop 1) <;> rfl

def member? (g : TypeGraph) (version : VersionBound) (p : UInt32) (text : Text) :
    Option (Text × TypeHandle GoType) :=
  (declaration? text).bind fun (name, typeText) =>
    (parse g version p typeText).map fun handle => (name, handle)

theorem parse_struct (unnamed : g.addressOfName? t = none) (other : basic? version p t = none)
    (notArray : ¬(utf8 "[").isPrefixOf t) (notPointer : ¬(utf8 "*").isPrefixOf t)
    (start : (utf8 "struct").isPrefixOf t) :
    parse g version p t = (structBody? t).bind fun body =>
      ((declarations body).mapM (member? g version p)).bind fun declared =>
        (layout? g {} declared).map fun l => .built (structOf version t l) := by
  have notSlice : ¬(utf8 "[]").isPrefixOf t :=
    fun slice => notArray (Text.isPrefixOf_of_append slice)
  rw [parse, unnamed, other]
  dsimp only
  rw [dif_neg notSlice, dif_neg notArray, dif_neg notPointer, dif_pos start]
  split
  · next none =>
    rw [none]
    rfl
  · next body some =>
    rw [some, Option.bind_some, mapM_attach (g := member? g version p), Option.map_bind]
    · rfl
    · rintro ⟨text, mem⟩
      rw [member?]
      cases declaration? text <;> rfl

theorem parse_map {keyText elementText : Text} (unnamed : g.addressOfName? t = none)
    (other : basic? version p t = none) (notArray : ¬(utf8 "[").isPrefixOf t)
    (notPointer : ¬(utf8 "*").isPrefixOf t) (notStruct : ¬(utf8 "struct").isPrefixOf t)
    (start : (utf8 "map[").isPrefixOf t) (parts : mapParts? t = some (keyText, elementText)) :
    parse g version p t = (parse g version p keyText).bind fun key =>
      (parse g version p elementText).bind fun element =>
        (parse g version p (bucketText version keyText elementText)).map fun bucket =>
          .built (word version p t
            (.map (reference key) (reference element) (reference bucket))) := by
  have notSlice : ¬(utf8 "[]").isPrefixOf t :=
    fun slice => notArray (Text.isPrefixOf_of_append slice)
  rw [parse, unnamed, other]
  dsimp only
  rw [dif_neg notSlice, dif_neg notArray, dif_neg notPointer, dif_neg notStruct, dif_pos start]
  split
  · next none => cases parts.symm.trans none
  · next some =>
    cases parts.symm.trans some
    cases parse g version p keyText with
    | none => rfl
    | some key => cases parse g version p elementText <;> rfl

end Forms

section Parts

variable {b : GoType} (wide : p = 4 ∨ p = 8)

include wide

theorem exists_word : ∃ m, IsAlignment m ∧ p.toUInt64 = UInt64.ofNat m := by
  rcases wide with rfl | rfl
  · exact ⟨4, by decide, rfl⟩
  · exact ⟨8, by decide, rfl⟩

theorem align_make_word (name : Text) (shape : Shape (TypeRef GoType)) (size : UInt64) :
    (make version name shape size p.toUInt64).align = p.toUInt64 := by
  obtain ⟨m, hm, eq⟩ := exists_word wide
  rw [eq, align_make _ _ _ hm]

theorem exists_align_room {kind : BasicKind} {room : Room} (mem : (kind, room) ∈ basicTypes) :
    ∃ m, IsAlignment m ∧ room.align p = UInt64.ofNat m := by
  cases room with
  | words count => exact exists_word wide
  | bytes size align =>
      have all : ∀ entry ∈ basicTypes, entry.2.align 8 ∈ [1, 2, 4, 8] := by decide
      have few := all _ mem
      simp only [Room.align, List.mem_cons, List.not_mem_nil, or_false] at few
      rcases few with eq | eq | eq | eq
      · exact ⟨1, by decide, eq⟩
      · exact ⟨2, by decide, eq⟩
      · exact ⟨4, by decide, eq⟩
      · exact ⟨8, by decide, eq⟩

omit wide in
/-- The common alignment of fields that have alignments is one. -/
theorem exists_align_addAll {l : Layout} {members : List (Text × GoType)} {m : Nat}
    (hm : IsAlignment m) (start : l.align = UInt64.ofNat m)
    (all : ∀ f ∈ members, ∃ n, IsAlignment n ∧ f.2.align = UInt64.ofNat n) :
    ∃ n, IsAlignment n ∧ (l.addAll members).align = UInt64.ofNat n := by
  induction members generalizing l m with
  | nil => exact ⟨m, hm, start⟩
  | cons first rest ih =>
      obtain ⟨⟨n, hn, eq⟩, others⟩ := List.forall_mem_cons.mp all
      have common : (l.add first.1 (.built first.2) first.2).align = UInt64.ofNat (max m n) := by
        show commonAlign l.align first.2.align = _
        rw [start, eq, commonAlign_ofNat hm hn]
      exact ih (hm.max hn) common others

/-- What built types are aligned to. -/
theorem Built.exists_align (h : Built version p b) :
    ∃ m, IsAlignment m ∧ b.align = UInt64.ofNat m := by
  obtain ⟨w, hw, word⟩ := exists_word wide
  induction h with
  | basic found =>
      obtain ⟨kind, room, mem, rfl⟩ := basic?_eq_some found
      obtain ⟨m, hm, eq⟩ := exists_align_room wide mem
      exact ⟨m, hm, by rw [eq, align_make _ _ _ hm]⟩
  | array _ fits ih =>
      obtain ⟨m, hm, eq⟩ := ih
      rw [arrayOf?_eq_some fits]
      exact ⟨m, hm, by rw [eq, align_make _ _ _ hm]⟩
  | struct t _ ih =>
      obtain ⟨m, hm, eq⟩ := exists_align_addAll (l := {}) (by decide) rfl ih
      exact ⟨m, hm, by rw [structOf, eq, align_make _ _ _ hm]⟩
  | function | pointer | slice | map =>
      exact ⟨w, hw, (align_make_word wide _ _ _).trans word⟩

/-- A built basic type is as large as its kind says. -/
theorem Built.of_basic (h : Built version p b) {kind : BasicKind} (shape : b.shape = .basic kind) :
    ∃ room, (kind, room) ∈ basicTypes ∧ b.size = room.size p ∧ b.align = room.align p := by
  cases h with
  | basic found =>
      obtain ⟨kind', room, mem, rfl⟩ := basic?_eq_some found
      cases shape
      obtain ⟨m, hm, eq⟩ := exists_align_room wide mem
      exact ⟨room, mem, rfl, by rw [eq, align_make _ _ _ hm]⟩
  | function t =>
      cases shape
      exact ⟨.words 1, by decide, (UInt64.one_mul _).symm, align_make_word wide _ _ _⟩
  | array _ fits =>
      rw [arrayOf?_eq_some fits] at shape
      cases shape
  | pointer | slice | struct | map => cases shape

/-- A built array is made of elements that are built. -/
theorem Built.of_array (h : Built version p b) {elem sliceType : TypeRef GoType} {length : UInt64}
    (shape : b.shape = .array elem sliceType length) :
    ∃ e, elem = reference (.built e) ∧ Built version p e ∧
      b.size = length * roundUp e.size e.align ∧ b.align = e.align := by
  cases h with
  | array built fits =>
      obtain ⟨m, hm, eq⟩ := built.exists_align wide
      rw [arrayOf?_eq_some fits] at shape ⊢
      cases shape
      exact ⟨_, rfl, built, rfl, by rw [eq, align_make _ _ _ hm]⟩
  | basic found =>
      obtain ⟨_, _, _, rfl⟩ := basic?_eq_some found
      cases shape
  | function | pointer | slice | struct | map => cases shape

/-- A built struct is laid out from fields that are built. -/
theorem Built.of_struct (h : Built version p b) {declared : List (Field (TypeRef GoType))}
    (shape : b.shape = .struct declared) :
    ∃ members : List (Text × GoType), (∀ f ∈ members, Built version p f.2) ∧
      declared = fieldsFrom 0 members ∧
      b.size = roundUp (Layout.addAll {} members).stop (Layout.addAll {} members).align ∧
      b.align = (Layout.addAll {} members).align := by
  cases h with
  | @struct t members all =>
      cases shape
      have aligned := fun f mem => (all f mem).exists_align wide
      obtain ⟨m, hm, eq⟩ := exists_align_addAll (l := {}) (by decide) rfl aligned
      refine ⟨members, all, Layout.fields_addAll {} members, rfl, ?_⟩
      rw [structOf, eq, align_make _ _ _ hm]
  | basic found =>
      obtain ⟨_, _, _, rfl⟩ := basic?_eq_some found
      cases shape
  | array _ fits =>
      rw [arrayOf?_eq_some fits] at shape
      cases shape
  | function | pointer | slice | map => cases shape

end Parts

end TypeSyntax

end GoInspect
