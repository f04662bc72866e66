import GoInspect.Text.Number
import GoInspect.TypeGraph

/-!
# Types from their syntax

A type that the binary does not carry is built from its text. A text that names a node of the graph
stands for that node; the rest is basic types, pointers, slices, arrays, structs and maps, and
function and channel types, which are taken as plain words. Field names hold no braces, brackets or
semicolons, and interfaces are not understood.

The bucket of a map is built from a struct text that contains the key and the element text again,
and is longer than the text of the map. It has one letter `a` less, though: the texts put around key
and element have none, and `map` has one. Reading therefore ends by the number of such letters, and
by the length where that stays the same.
-/

namespace GoInspect

namespace TypeSyntax

/-- How much room a basic type takes. -/
inductive Room where
  /-- As many bytes, aligned so. -/
  | bytes (size align : UInt64)
  | words (count : UInt64)
  deriving DecidableEq, Repr

def basicTypes : List (BasicKind × Room) :=
  [(.bool, .bytes 1 1), (.complex64, .bytes 8 4), (.complex128, .bytes 16 8),
    (.float32, .bytes 4 4), (.float64, .bytes 8 8), (.int, .words 1), (.int8, .bytes 1 1),
    (.int16, .bytes 2 2), (.int32, .bytes 4 4), (.int64, .bytes 8 8), (.uint, .words 1),
    (.uint8, .bytes 1 1), (.uint16, .bytes 2 2), (.uint32, .bytes 4 4), (.uint64, .bytes 8 8),
    (.string, .words 2), (.uintptr, .words 1), (.unsafePointer, .words 1)]

/-- A built type. Of the alignment the low byte is kept. -/
def make (version : VersionBound) (name : Text) (shape : Shape (TypeRef GoType))
    (size align : UInt64) : GoType :=
  .mk
    { size, align := align.toUInt8, fieldAlign := align.toUInt8
      kindByte := shape.kind.index.toUInt8, name }
    version shape

def reference (h : TypeHandle GoType) : TypeRef GoType := ⟨0, some h⟩

/-- The text cut at the semicolons outside of all braces, `level` of which are open. -/
def cutAtSemicolons : (level : Int) → Text → List Text
  | _, [] => [[]]
  | level, b :: rest =>
    if b = 59 ∧ level = 0 then [] :: cutAtSemicolons level rest
    else
      let level := if b = 123 then level + 1 else if b = 125 then level - 1 else level
      match cutAtSemicolons level rest with
      | [] => [[b]]
      | piece :: others => (b :: piece) :: others

/-- The declarations between the braces of a struct. Nothing has to follow the last semicolon. -/
def declarations (body : Text) : List Text :=
  let pieces := cutAtSemicolons 0 body
  if pieces.getLast? = some [] then pieces.dropLast else pieces

/-- The field name and the type of a declaration. -/
def declaration? (t : Text) : Option (Text × Text) := Text.cut? 32 t.trim

def structBody? (t : Text) : Option Text :=
  let body := Text.trim (t.drop 6)
  if body.head? = some 123 ∧ body.getLast? = some 125 then
    some (Text.trim ((body.drop 1).take (body.length - 2)))
  else none

/-- The text up to the bracket that closes the `level + 1` open ones, and the text after it. -/
def closeBracket? : (level : Nat) → Text → Option (Text × Text)
  | _, [] => none
  | level, b :: rest =>
    if b = 93 then
      match level with
      | 0 => some ([], rest)
      | level + 1 => (closeBracket? level rest).map fun (before, after) => (b :: before, after)
    else
      let level := if b = 91 then level + 1 else level
      (closeBracket? level rest).map fun (before, after) => (b :: before, after)

/-- The key and the element text after `map[`. -/
def mapParts? (t : Text) : Option (Text × Text) :=
  (closeBracket? 0 (t.drop 4)).filter fun (_, element) => !element.isEmpty

/-- The struct that the runtime keeps the entries of a map in, up to 1.23 a bucket with arrays of
keys and elements, from 1.24 on a group with an array of slots. -/
def bucketText (version : VersionBound) (key element : Text) : Text :=
  if version.swissMaps then
    utf8 "struct \x7b ctrl uint64; slots [8]struct \x7b key " ++ key ++ utf8 "; elem " ++ element ++
      utf8 " \x7d \x7d"
  else
    utf8 "struct \x7b topbits [8]uint8; keys [8]" ++ key ++ utf8 "; elems [8]" ++ element ++
      utf8 "; overflow uintptr \x7d"

/-- The least common multiple, as 64-bit arithmetic gives it. -/
def commonAlign (m n : UInt64) : UInt64 :=
  if m = 0 ∨ n = 0 then 0 else m / UInt64.ofNat (m.toNat.gcd n.toNat) * n

/-- Fields that are laid out one after another. -/
structure Layout where
  /-- The fields so far. -/
  fields : List (Field (TypeRef GoType)) := []
  /-- The end of the last field. -/
  stop : UInt64 := 0
  /-- The common alignment of the fields. -/
  align : UInt64 := 1

/-- The layout with another field behind the last one, at the next place that fits its alignment. -/
def Layout.add (l : Layout) (name : Text) (handle : TypeHandle GoType) (t : GoType) : Layout :=
  let offset := roundUp l.stop t.align
  { fields := l.fields ++ [⟨name, reference handle, offset⟩]
    stop := offset + t.size
    align := commonAlign l.align t.align }

section Measure

variable {t u : Text}

theorem trim_sublist (t : Text) : t.trim.Sublist t := by
  have back := (List.dropWhile_sublist (l := t.trimStart.reverse) Text.isBlank).reverse
  rw [List.reverse_reverse] at back
  exact back.trans (List.dropWhile_sublist _)

theorem cut?_sublist {separator : UInt8} {before after : Text}
    (h : Text.cut? separator t = some (before, after)) :
    after.Sublist t ∧ after.length < t.length := by
  induction t generalizing before after with
  | nil => simp [Text.cut?] at h
  | cons b rest ih =>
    unfold Text.cut? at h
    split at h
    · simp only [Option.some.injEq, Prod.mk.injEq] at h
      obtain ⟨_, rfl⟩ := h
      exact ⟨List.sublist_cons_self _ _, by simp⟩
    · simp only [Option.map_eq_some_iff, Prod.exists, Prod.mk.injEq] at h
      obtain ⟨before', after', h, _, rfl⟩ := h
      have := ih h
      exact ⟨this.1.cons _, by simp only [List.length_cons]; omega⟩

theorem cutAtSemicolons_sublist {level : Int} (h : u ∈ cutAtSemicolons level t) :
    u.Sublist t := by
  induction t generalizing level u with
  | nil =>
    simp only [cutAtSemicolons, List.mem_singleton] at h
    simp [h]
  | cons b rest ih =>
    unfold cutAtSemicolons at h
    split at h
    · rcases List.mem_cons.mp h with rfl | h
      · exact List.nil_sublist _
      · exact (ih h).cons _
    · simp only at h
      split at h
      · simp only [List.mem_singleton] at h
        subst h
        simp
      · next piece others eq =>
        rcases List.mem_cons.mp h with rfl | h
        · exact (ih (eq ▸ List.mem_cons_self)).cons_cons _
        · exact (ih (eq ▸ List.mem_cons_of_mem _ h)).cons _

theorem declarations_sublist (h : u ∈ declarations t) : u.Sublist t := by
  unfold declarations at h
  simp only at h
  split at h
  · exact cutAtSemicolons_sublist (List.dropLast_subset _ h)
  · exact cutAtSemicolons_sublist h

theorem structBody?_sublist {body : Text} (h : structBody? t = some body) : body.Sublist t := by
  unfold structBody? at h
  simp only at h
  split at h
  · simp only [Option.some.injEq] at h
    subst h
    exact ((trim_sublist _).trans ((List.take_sublist _ _).trans (List.drop_sublist _ _))).trans
      ((trim_sublist _).trans (List.drop_sublist _ _))
  · cases h

theorem closeBracket?_eq {level : Nat} {before after : Text}
    (h : closeBracket? level t = some (before, after)) : t = before ++ 93 :: after := by
  induction t generalizing level before after with
  | nil => simp [closeBracket?] at h
  | cons b rest ih =>
    unfold closeBracket? at h
    split at h
    · next eq =>
      subst eq
      split at h
      · simp only [Option.some.injEq, Prod.mk.injEq] at h
        obtain ⟨rfl, rfl⟩ := h
        rfl
      · simp only [Option.map_eq_some_iff, Prod.exists, Prod.mk.injEq] at h
        obtain ⟨before', after', h, rfl, rfl⟩ := h
        simp [ih h]
    · simp only [Option.map_eq_some_iff, Prod.exists, Prod.mk.injEq] at h
      obtain ⟨before', after', h, rfl, rfl⟩ := h
      simp [ih h]

/-- The letter that every map text has one of and no bucket text adds. -/
def mark : UInt8 := 97

/-- Bucket texts add no mark to those of key and element. -/
theorem count_bucketText (version : VersionBound) (key element : Text) :
    (bucketText version key element).count mark = key.count mark + element.count mark := by
  have swiss : (utf8 "struct \x7b ctrl uint64; slots [8]struct \x7b key ").count mark = 0 ∧
      (utf8 "; elem ").count mark = 0 ∧ (utf8 " \x7d \x7d").count mark = 0 := by decide
  have legacy : (utf8 "struct \x7b topbits [8]uint8; keys [8]").count mark = 0 ∧
      (utf8 "; elems [8]").count mark = 0 ∧ (utf8 "; overflow uintptr \x7d").count mark = 0 := by
    decide
  unfold bucketText
  split <;> simp [List.count_append, swiss, legacy]

/-- Key and element together have fewer marks than the map. -/
theorem count_mapParts {key element : Text} (start : (utf8 "map[").isPrefixOf t)
    (h : mapParts? t = some (key, element)) :
    key.count mark + element.count mark < t.count mark ∧
      key.length < t.length ∧ element.length < t.length := by
  obtain ⟨rest, rfl⟩ := List.isPrefixOf_iff_prefix.mp start
  unfold mapParts? at h
  have four : (utf8 "map[").length = 4 := by decide
  have one : (utf8 "map[").count mark = 1 := by decide
  simp only [Option.filter_eq_some_iff] at h
  have eq := closeBracket?_eq h.1
  rw [List.drop_append_of_le_length (by omega), List.drop_eq_nil_of_le (by omega)] at eq
  simp only [List.nil_append] at eq
  subst eq
  have bracket : ((93 : UInt8) :: element).count mark = element.count mark := by
    rw [List.count_cons]
    simp [mark]
  simp only [List.count_append, one, bracket, List.length_append, List.length_cons, four]
  omega

theorem smaller_of_sublist (h : u.Sublist t) (lt : u.length < t.length) :
    Prod.Lex (· < ·) (· < ·) (u.count mark, u.length) (t.count mark, t.length) :=
  Prod.Lex.right' _ (h.count_le mark) lt

theorem smaller_of_count (h : u.count mark < t.count mark) :
    Prod.Lex (· < ·) (· < ·) (u.count mark, u.length) (t.count mark, t.length) :=
  Prod.Lex.left _ _ h

/-- Anything after the start of a text is smaller than the text. -/
theorem drop_smaller {start : Text} (h : start.isPrefixOf t) {n : Nat} (pos : 0 < n)
    (nonempty : 0 < start.length) :
    Prod.Lex (· < ·) (· < ·) ((t.drop n).count mark, (t.drop n).length)
      (t.count mark, t.length) := by
  have := (List.isPrefixOf_iff_prefix.mp h).length_le
  exact smaller_of_sublist (List.drop_sublist _ _) (by rw [List.length_drop]; omega)

/-- The body of a struct is shorter than the struct. -/
theorem structBody?_length {start body : Text} (h : start.isPrefixOf t) (le : 0 < start.length)
    (eq : structBody? t = some body) : body.length < t.length := by
  have long := (List.isPrefixOf_iff_prefix.mp h).length_le
  unfold structBody? at eq
  simp only at eq
  split at eq
  · simp only [Option.some.injEq] at eq
    subst eq
    have inner := (trim_sublist (((Text.trim (t.drop 6)).drop 1).take
      ((Text.trim (t.drop 6)).length - 2))).length_le
    have outer := (trim_sublist (t.drop 6)).length_le
    simp only [List.length_take, List.length_drop] at inner outer
    omega
  · cases eq

end Measure

variable (g : TypeGraph) (version : VersionBound) (pointerWidth : UInt32)

def basic? (t : Text) : Option GoType :=
  (basicTypes.find? fun (kind, _) => kind.spelling == t).map fun (kind, room) =>
    match room with
    | .bytes size align => make version t (.basic kind) size align
    | .words count =>
      make version t (.basic kind) (count * pointerWidth.toUInt64) pointerWidth.toUInt64

/-- The array of a known element type, unless it is too large to have a size. -/
def arrayOf? (t : Text) (length : UInt64) (handle : TypeHandle GoType) (element : GoType) :
    Option GoType :=
  let stride := roundUp element.size element.align
  if stride ≠ 0 ∧ 0xFFFFFFFFFFFFFFFF / stride < length then none
  else
    some (make version t (.array (reference handle) ⟨0, none⟩ length) (length * stride)
      element.align)

def word (t : Text) (shape : Shape (TypeRef GoType)) : GoType :=
  make version t shape pointerWidth.toUInt64 pointerWidth.toUInt64

/-- The struct of a layout. Its end is padded to its alignment. -/
def structOf (t : Text) (l : Layout) : GoType :=
  make version t (.struct l.fields) (roundUp l.stop l.align) l.align

/-- The layout of declared fields whose types are known. -/
def layout? : Layout → List (Text × TypeHandle GoType) → Option Layout
  | l, [] => some l
  | l, (name, handle) :: rest =>
    match g.lookup? handle with
    | none => none
    | some t => layout? (l.add name handle t) rest

/-- The type that a text stands for: a node of the graph, or a built type. -/
def parse (t : Text) : Option (TypeHandle GoType) :=
  match g.addressOfName? t with
  | some address => some (.node address)
  | none =>
    match basic? version pointerWidth t with
    | some b => some (.built b)
    | none =>
      if _start : (utf8 "[]").isPrefixOf t then
        match parse (t.drop 2) with
        | none => none
        | some element =>
          some (.built (make version t (.slice (reference element))
            (3 * pointerWidth).toUInt64 pointerWidth.toUInt64))
      else if _start : (utf8 "[").isPrefixOf t then
        match _cut : Text.cut? 93 (t.drop 1) with
        | none => none
        | some (lengthText, elementText) =>
          match lengthText.toUInt64? with
          | none => none
          | some length =>
            match parse elementText with
            | none => none
            | some element =>
              (g.lookup? element).bind fun e =>
                (arrayOf? version t length element e).map .built
      else if _start : (utf8 "*").isPrefixOf t then
        match parse (t.drop 1) with
        | none => none
        | some element => some (.built (word version pointerWidth t (.pointer (reference element))))
      else if _start : (utf8 "struct").isPrefixOf t then
        match _body : structBody? t with
        | none => none
        | some body =>
          let fields := (declarations body).attach.mapM fun ⟨text, _mem⟩ =>
            match _field : declaration? text with
            | none => none
            | some (name, typeText) => (parse typeText).map fun handle => (name, handle)
          (fields.bind fun fields => layout? g {} fields).map fun l =>
            .built (structOf version t l)
      else if _start : (utf8 "map[").isPrefixOf t then
        match _parts : mapParts? t with
        | none => none
        | some (keyText, elementText) =>
          match parse keyText, parse elementText with
          | some key, some element =>
            (parse (bucketText version keyText elementText)).map fun bucket =>
              .built (word version pointerWidth t
                (.map (reference key) (reference element) (reference bucket)))
          | _, _ => none
      else if (utf8 "func").isPrefixOf t || (utf8 "chan").isPrefixOf t then
        some (.built (word version pointerWidth t (.basic .uintptr)))
      else none
termination_by (t.count mark, t.length)
decreasing_by
  · exact drop_smaller _start (by decide) (by decide)
  · have cut := cut?_sublist _cut
    have := (List.isPrefixOf_iff_prefix.mp _start).length_le
    have one : (utf8 "[").length = 1 := by decide
    refine smaller_of_sublist (cut.1.trans (List.drop_sublist _ _)) ?_
    have := cut.2
    rw [List.length_drop] at this
    omega
  · exact drop_smaller _start (by decide) (by decide)
  · have inner := (cut?_sublist _field).1.trans
      ((trim_sublist _).trans (declarations_sublist _mem))
    exact smaller_of_sublist (inner.trans (structBody?_sublist _body))
      (Nat.lt_of_le_of_lt inner.length_le (structBody?_length _start (by decide) _body))
  · have := count_mapParts _start _parts
    exact smaller_of_count (by omega)
  · have := count_mapParts _start _parts
    exact smaller_of_count (by omega)
  · have := count_mapParts _start _parts
    exact smaller_of_count (by rw [count_bucketText]; omega)

end TypeSyntax

end GoInspect
