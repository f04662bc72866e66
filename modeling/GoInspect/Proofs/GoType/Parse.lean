import GoInspect.Proofs.GoType.Scan

/-!
# Terms are read as what they say

The text of a term is read as a type that is what the term says, part by part, if no array in it is
too large. Parts whose text is a name in the graph are taken from there, so the nodes of the graph
have to be what their names say; over an empty graph nothing is asked for. There, a text that is
read also tells that its arrays are not too large.
-/

namespace GoInspect

namespace TypeTerm

open TypeSyntax

variable {g : TypeGraph} {version : VersionBound} {p : UInt32}

section Sizes

theorem isAlignment_all {fields : List (FieldName × TypeTerm)}
    (all : ∀ f ∈ fields, IsAlignment (f.2.align p)) : IsAlignment (alignAll p fields) := by
  induction fields with
  | nil => exact .inl rfl
  | cons f rest ih =>
      obtain ⟨first, later⟩ := List.forall_mem_cons.mp all
      exact first.max (ih later)

variable (wide : p = 4 ∨ p = 8)

include wide

theorem isAlignment_word : IsAlignment p.toNat := by
  rcases wide with rfl | rfl
  · exact .inr (.inr (.inl rfl))
  · exact .inr (.inr (.inr rfl))

theorem isAlignment (t : TypeTerm) : IsAlignment (t.align p) := by
  have word := isAlignment_word wide
  induction t using TypeTerm.structural with
  | basic kind =>
      obtain ⟨m, hm, eq⟩ := exists_align_room wide (mem_basicTypes kind.2)
      rw [align, eq, hm.toNat_ofNat]
      exact hm
  | array n e ih => exact ih
  | struct fields ih => exact isAlignment_all ih
  | slice | pointer | map => exact word

theorem ofNat_toNat_word : p.toUInt64 = UInt64.ofNat p.toNat := by
  rcases wide with rfl | rfl <;> rfl

theorem ofNat_three_words : (3 * p).toUInt64 = UInt64.ofNat (3 * p.toNat) := by
  rcases wide with rfl | rfl <;> rfl

/-- A type that is made with the room of a term. -/
theorem heads_make (version : VersionBound) (term : TypeTerm) {size align : UInt64}
    (shape : Shape (TypeRef GoType)) (hs : size = UInt64.ofNat (term.size p))
    (ha : align = UInt64.ofNat (term.align p)) :
    Heads version p term (make version term.text shape size align) where
  name := rfl
  version := rfl
  size := hs
  align := by
    rw [ha]
    exact align_make _ _ _ (term.isAlignment wide)

theorem Heads.roundUp {e : TypeTerm} {t : GoType} (h : Heads version p e t) :
    roundUp t.size t.align = UInt64.ofNat (e.stride p) := by
  rw [h.size, h.align, roundUp_ofNat (e.isAlignment wide), stride]

/-- An array gets a size if the bytes of its elements can be counted. -/
theorem isSome_arrayOf?_iff {n : Nat} {e : TypeTerm} {t : GoType} (heads : Heads version p e t)
    (short : n < 2 ^ 64) (name : Text) (handle : TypeHandle GoType) :
    (arrayOf? version name (UInt64.ofNat n) handle t).isSome ↔
      n * (e.stride p % 2 ^ 64) < 2 ^ 64 := by
  have length : (UInt64.ofNat n).toNat = n := by
    rw [UInt64.toNat_ofNat', Nat.mod_eq_of_lt short]
  have stride : (UInt64.ofNat (e.stride p)).toNat = e.stride p % 2 ^ 64 := UInt64.toNat_ofNat'
  rw [arrayOf?, heads.roundUp wide]
  by_cases zero : UInt64.ofNat (e.stride p) = 0
  · have none : e.stride p % 2 ^ 64 = 0 := by
      rw [← stride, zero]
      rfl
    rw [if_neg fun large => large.1 zero, none, Nat.mul_zero]
    exact iff_of_true rfl (by decide)
  · have positive : 0 < e.stride p % 2 ^ 64 := by
      rw [← stride]
      exact Nat.pos_of_ne_zero fun eq => zero (UInt64.toNat_inj.mp eq)
    have most : (0xFFFFFFFFFFFFFFFF : UInt64) / UInt64.ofNat (e.stride p) < UInt64.ofNat n ↔
        ¬ n * (e.stride p % 2 ^ 64) < 2 ^ 64 := by
      rw [UInt64.lt_iff_toNat_lt, UInt64.toNat_div, length, stride, Nat.div_lt_iff_lt_mul positive]
      show 2 ^ 64 - 1 < _ ↔ _
      omega
    by_cases fits : n * (e.stride p % 2 ^ 64) < 2 ^ 64
    · rw [if_neg fun large => most.mp large.2 fits]
      exact iff_of_true rfl fits
    · rw [if_pos ⟨zero, most.mpr fits⟩]
      exact iff_of_false Bool.false_ne_true fits

end Sizes

variable (g version p) in
/-- The text of a term is read as a type that is what the term says. -/
def IsRead (term : TypeTerm) : Prop :=
  ∃ handle t, parse g version p term.text = some handle ∧ g.lookup? handle = some t ∧
    Denotes g version p term t

section Declarations

theorem declaration?_member (name : FieldName) (t : TypeTerm) :
    declaration? (name.text ++ (utf8 " " ++ t.text)) = some (name.text, t.text) := by
  have free : (32 : UInt8) ∉ name.text := by
    intro mem
    exact absurd (isNameByte_iff.mp (List.all_eq_true.mp name.plain 32 mem)).1 (by decide)
  rw [declaration?, ((tidy_name name).declaration (tidy_text t)).solid.trim]
  exact Text.cut?_append free t.text

theorem member?_blank {d : Text} (solid : Text.Solid d) :
    member? g version p (utf8 " " ++ d) = member? g version p d := by
  have trimmed : Text.trim (utf8 " " ++ (d ++ [])) = d :=
    solid.trim_between rfl rfl
  rw [List.append_nil] at trimmed
  rw [member?, member?, declaration?, declaration?, trimmed, solid.trim]

theorem member?_declaration (name : FieldName) (t : TypeTerm) :
    member? g version p (name.text ++ (utf8 " " ++ t.text)) =
      (parse g version p t.text).map fun handle => (name.text, handle) := by
  rw [member?, declaration?_member]
  rfl

/-- What is read for a declaration: its name, and a type that is what its term says. -/
def Declares (g : TypeGraph) (version : VersionBound) (p : UInt32) (f : FieldName × TypeTerm)
    (found : Text × TypeHandle GoType) : Prop :=
  found.1 = f.1.text ∧ ∃ t, g.lookup? found.2 = some t ∧ Denotes g version p f.2 t

variable {fields : List (FieldName × TypeTerm)}

theorem mapM_member? (all : ∀ f ∈ fields, IsRead g version p f.2) :
    ∃ found, (declarations fields).mapM (member? g version p) = some found ∧
      List.Forall₂ (Declares g version p) fields found := by
  induction fields with
  | nil => exact ⟨[], rfl, .nil⟩
  | cons f rest ih =>
      obtain ⟨first, later⟩ := List.forall_mem_cons.mp all
      obtain ⟨handle, t, parsed, known, denotes⟩ := first
      obtain ⟨others, found, declare⟩ := ih later
      refine ⟨(f.1.text, handle) :: others, ?_, .cons ⟨rfl, t, known, denotes⟩ declare⟩
      rw [declarations, List.mapM_cons, member?_declaration, parsed, found]
      rfl

/-- Fields are laid out as their terms say, behind those that are there. -/
theorem layout?_declares (wide : p = 4 ∨ p = 8) {found : List (Text × TypeHandle GoType)}
    (declare : List.Forall₂ (Declares g version p) fields found) {l : Layout} {start m : Nat}
    (stop : l.stop = UInt64.ofNat start) (align : l.align = UInt64.ofNat m)
    (alignment : IsAlignment m) :
    ∃ l' declared, layout? g l found = some l' ∧ l'.fields = l.fields ++ declared ∧
      DenoteFields g version p start fields declared ∧
      l'.stop = UInt64.ofNat (TypeTerm.stop p start fields) ∧
      l'.align = UInt64.ofNat (max m (alignAll p fields)) := by
  induction declare generalizing l start m with
  | nil =>
      refine ⟨l, [], rfl, (List.append_nil _).symm, .nil, stop, ?_⟩
      rw [align, alignAll, Nat.max_eq_left alignment.pos]
  | @cons f first rest others declares _ ih =>
      obtain ⟨name, type⟩ := f
      obtain ⟨text, handle⟩ := first
      obtain ⟨rfl, t, known, denotes⟩ := declares
      have heads := denotes.heads
      have alignment' := type.isAlignment wide
      have offset : roundUp l.stop t.align =
          UInt64.ofNat (nextMultiple start (type.align p)) := by
        rw [stop, heads.align, roundUp_ofNat alignment']
      have stop' : (l.add name.text handle t).stop =
          UInt64.ofNat (nextMultiple start (type.align p) + type.size p) := by
        show roundUp l.stop t.align + t.size = _
        rw [offset, heads.size, UInt64.ofNat_add]
      have align' : (l.add name.text handle t).align = UInt64.ofNat (max m (type.align p)) := by
        show commonAlign l.align t.align = _
        rw [align, heads.align, commonAlign_ofNat alignment alignment']
      obtain ⟨l', declared, laid, fields, denote, last, common⟩ :=
        ih stop' align' (alignment.max alignment')
      refine ⟨l', ⟨name.text, reference handle, roundUp l.stop t.align⟩ :: declared, ?_, ?_, ?_,
        last, ?_⟩
      · rw [layout?, known]
        exact laid
      · rw [fields]
        exact List.append_assoc _ _ _
      · rw [offset]
        exact .cons known denotes denote
      · rw [common, alignAll, Nat.max_assoc]

end Declarations

section Forms

variable {n : Nat} {e k v : TypeTerm} {fields : List (FieldName × TypeTerm)}

theorem parse_basic_text {kind : Primitive}
    (unnamed : g.addressOfName? (basic kind).text = none) :
    parse g version p (basic kind).text = some (.built (make version (basic kind).text
      (.basic kind.1) ((room kind.1).size p) ((room kind.1).align p))) := by
  have found : ∀ kind : BasicKind, kind ≠ .invalid →
      basicTypes.find? (fun entry => entry.1.spelling == kind.spelling) =
        some (kind, room kind) := by
    intro kind valid
    cases kind with
    | invalid => exact absurd rfl valid
    | _ => decide
  refine parse_basic unnamed ?_
  show (basicTypes.find? fun entry => entry.1.spelling == kind.1.spelling).map _ = _
  rw [found kind.1 kind.2, Option.map_some]
  cases room kind.1 <;> rfl

theorem parse_slice_text (unnamed : g.addressOfName? (slice e).text = none) :
    parse g version p (slice e).text = (parse g version p e.text).map fun element =>
      .built (make version (slice e).text (.slice (reference element)) (3 * p).toUInt64
        p.toUInt64) := by
  have start : (utf8 "[]").isPrefixOf (slice e).text := Text.isPrefixOf_append _ _
  exact parse_slice unnamed (basic?_eq_none start (by decide)) start

theorem parse_array_text (unnamed : g.addressOfName? (array n e).text = none) :
    parse g version p (array n e).text = (Text.decimal n).toUInt64?.bind fun length =>
      (parse g version p e.text).bind fun element => (g.lookup? element).bind fun t =>
        (arrayOf? version (array n e).text length element t).map .built := by
  have plain : ∀ b ∈ Text.decimal n, b ≠ 93 := Text.forall_decimal (by decide)
  have start : (utf8 "[").isPrefixOf (array n e).text := Text.isPrefixOf_append _ _
  have notSlice : ¬(utf8 "[]").isPrefixOf (array n e).text := by
    obtain ⟨b, rest, eq⟩ := List.exists_cons_of_ne_nil (Text.solid_decimal n).ne_nil
    have other : (93 == b) = false := by
      rw [beq_eq_false_iff_ne]
      exact (plain b (eq ▸ List.mem_cons_self)).symm
    rw [text, eq]
    show ¬((93 == b) && _) = true
    rw [other]
    exact Bool.false_ne_true
  have free : (93 : UInt8) ∉ Text.decimal n := fun mem => plain 93 mem rfl
  exact parse_array unnamed (basic?_eq_none start (by decide)) notSlice start
    (Text.cut?_append free e.text)

theorem parse_pointer_text (unnamed : g.addressOfName? (pointer e).text = none) :
    parse g version p (pointer e).text = (parse g version p e.text).map fun element =>
      .built (word version p (pointer e).text (.pointer (reference element))) := by
  have start : (utf8 "*").isPrefixOf (pointer e).text := Text.isPrefixOf_append _ _
  exact parse_pointer unnamed (basic?_eq_none start (by decide)) Bool.false_ne_true start

theorem parse_map_text (unnamed : g.addressOfName? (map k v).text = none) :
    parse g version p (map k v).text = (parse g version p k.text).bind fun key =>
      (parse g version p v.text).bind fun element =>
        (parse g version p (bucket version k v).text).map fun entries =>
          .built (word version p (map k v).text
            (.map (reference key) (reference element) (reference entries))) := by
  have start : (utf8 "map[").isPrefixOf (map k v).text := Text.isPrefixOf_append _ _
  have parts := mapParts?_append (tidy_text k).balanced (tidy_text v).solid.ne_nil
  rw [text_bucket]
  exact parse_map unnamed (basic?_eq_none start (by decide)) Bool.false_ne_true
    Bool.false_ne_true Bool.false_ne_true start parts

theorem parse_struct_text (unnamed : g.addressOfName? (struct fields).text = none) :
    parse g version p (struct fields).text =
      ((declarations fields).mapM (member? g version p)).bind fun found =>
        (layout? g {} found).map fun l => .built (structOf version (struct fields).text l) := by
  have tidy : ∀ d ∈ declarations fields, Tidy d := by
    rw [declarations_eq_map]
    intro d mem
    obtain ⟨f, _, rfl⟩ := List.mem_map.mp mem
    exact (tidy_name f.1).declaration (tidy_text f.2)
  obtain ⟨rest, keyword⟩ : ∃ rest, (struct fields).text = utf8 "struct" ++ rest := by
    rw [text, structText.eq_def]
    cases declarations fields with
    | nil => exact ⟨utf8 " \x7b\x7d", rfl⟩
    | cons d rest => exact ⟨utf8 " \x7b " ++ _, rfl⟩
  have start : (utf8 "struct").isPrefixOf (struct fields).text :=
    keyword ▸ Text.isPrefixOf_append _ rest
  have notArray : ¬(utf8 "[").isPrefixOf (struct fields).text := by
    rw [keyword]
    exact Bool.false_ne_true
  have notPointer : ¬(utf8 "*").isPrefixOf (struct fields).text := by
    rw [keyword]
    exact Bool.false_ne_true
  have body : structBody? (struct fields).text =
      some (Text.join (utf8 "; ") (declarations fields)) :=
    structBody?_structText fun d mem => (tidy d mem).solid
  have blank : ∀ d ∈ declarations fields,
      member? g version p (utf8 " " ++ d) = member? g version p d :=
    fun d mem => member?_blank (tidy d mem).solid
  have pieces := mapM_declarations_join (fun d mem => (tidy d mem).solid.ne_nil)
    (fun d mem => (tidy d mem).uncut) blank
  rw [parse_struct unnamed (basic?_eq_none start (by decide)) notArray notPointer start, body,
    Option.bind_some, pieces]

end Forms

section Parts

variable {n : Nat} {e k v : TypeTerm} {fields : List (FieldName × TypeTerm)} (wide : p = 4 ∨ p = 8)

theorem isRead_of_built {term : TypeTerm} {b : GoType}
    (parsed : parse g version p term.text = some (.built b))
    (denotes : Denotes g version p term b) : IsRead g version p term :=
  ⟨.built b, b, parsed, rfl, denotes⟩

include wide

theorem isRead_basic {kind : Primitive} (unnamed : g.addressOfName? (basic kind).text = none) :
    IsRead g version p (.basic kind) := by
  have heads := heads_make wide version (.basic kind) (.basic kind.1) UInt64.ofNat_toNat.symm
    UInt64.ofNat_toNat.symm
  exact isRead_of_built (parse_basic_text unnamed) (.basic heads rfl)

theorem IsRead.slice (h : IsRead g version p e)
    (unnamed : g.addressOfName? (slice e).text = none) : IsRead g version p (.slice e) := by
  obtain ⟨handle, t, parsed, known, denotes⟩ := h
  have elem : g.deref? (reference handle) = some t := known
  have heads := heads_make wide version (.slice e) (.slice (reference handle))
    (ofNat_three_words wide) (ofNat_toNat_word wide)
  refine isRead_of_built ?_ (.slice heads rfl elem denotes)
  rw [parse_slice_text unnamed, parsed]
  rfl

theorem IsRead.array (h : IsRead g version p e) (short : n < 2 ^ 64)
    (small : n * (e.stride p % 2 ^ 64) < 2 ^ 64)
    (unnamed : g.addressOfName? (array n e).text = none) : IsRead g version p (.array n e) := by
  obtain ⟨handle, t, parsed, known, denotes⟩ := h
  have elem : g.deref? (reference handle) = some t := known
  have length : (UInt64.ofNat n).toNat = n := by
    rw [UInt64.toNat_ofNat', Nat.mod_eq_of_lt short]
  have size : UInt64.ofNat n * roundUp t.size t.align =
      UInt64.ofNat ((TypeTerm.array n e).size p) := by
    rw [denotes.heads.roundUp wide, ← UInt64.ofNat_mul]
    rfl
  have heads := heads_make wide version (.array n e)
    (.array (reference handle) ⟨0, none⟩ (UInt64.ofNat n)) size denotes.heads.align
  have sized :=
    (isSome_arrayOf?_iff wide denotes.heads short (TypeTerm.array n e).text handle).mpr small
  obtain ⟨b, fits⟩ := Option.isSome_iff_exists.mp sized
  refine isRead_of_built ?_ (.array heads rfl length elem denotes)
  rw [parse_array_text unnamed, Text.toUInt64?_decimal, if_pos short, parsed, Option.bind_some,
    Option.bind_some, known, Option.bind_some, fits, arrayOf?_eq_some fits]
  rfl

theorem IsRead.pointer (h : IsRead g version p e)
    (unnamed : g.addressOfName? (pointer e).text = none) : IsRead g version p (.pointer e) := by
  obtain ⟨handle, t, parsed, known, denotes⟩ := h
  have word := ofNat_toNat_word wide
  have elem : g.deref? (reference handle) = some t := known
  have heads := heads_make wide version (.pointer e) (.pointer (reference handle)) word word
  refine isRead_of_built ?_ (.pointer heads rfl elem denotes)
  rw [parse_pointer_text unnamed, parsed]
  rfl

theorem isRead_struct (all : ∀ f ∈ fields, IsRead g version p f.2)
    (unnamed : g.addressOfName? (struct fields).text = none) :
    IsRead g version p (.struct fields) := by
  obtain ⟨found, come, declare⟩ := mapM_member? all
  have start : ({} : Layout).stop = UInt64.ofNat 0 := rfl
  have one : ({} : Layout).align = UInt64.ofNat 1 := rfl
  obtain ⟨l, declared, laid, new, denote, stop, common⟩ :=
    layout?_declares wide declare start one (.inl rfl)
  have alignment := (TypeTerm.struct fields).isAlignment wide
  have align : l.align = UInt64.ofNat ((TypeTerm.struct fields).align p) :=
    common.trans (congrArg UInt64.ofNat (Nat.max_eq_right alignment.pos))
  have size : roundUp l.stop l.align = UInt64.ofNat ((TypeTerm.struct fields).size p) := by
    rw [stop, align, roundUp_ofNat alignment]
    rfl
  have heads := heads_make wide version (.struct fields) (.struct l.fields) size align
  refine isRead_of_built ?_ (.struct heads (congrArg Shape.struct new) denote)
  rw [parse_struct_text unnamed, come, Option.bind_some, laid]
  rfl

theorem IsRead.map (hk : IsRead g version p k) (hv : IsRead g version p v)
    (hb : IsRead g version p (bucket version k v))
    (unnamed : g.addressOfName? (map k v).text = none) : IsRead g version p (.map k v) := by
  obtain ⟨key, tk, parsedKey, knownKey, denotesKey⟩ := hk
  obtain ⟨value, tv, parsedValue, knownValue, denotesValue⟩ := hv
  obtain ⟨entries, tb, parsedBucket, knownBucket, denotesBucket⟩ := hb
  have word := ofNat_toNat_word wide
  have heads := heads_make wide version (.map k v)
    (.map (reference key) (reference value) (reference entries)) word word
  have first : g.deref? (reference key) = some tk := knownKey
  have second : g.deref? (reference value) = some tv := knownValue
  have third : g.deref? (reference entries) = some tb := knownBucket
  refine isRead_of_built ?_
    (.map heads rfl first denotesKey second denotesValue third denotesBucket)
  rw [parse_map_text unnamed, parsedKey, parsedValue, parsedBucket]
  rfl

end Parts

section Terms

variable {u term : TypeTerm}

variable (g version p) in
/-- The nodes that parts of a term name are what the parts say. -/
def Faithful (term : TypeTerm) : Prop :=
  ∀ u address, IsPart version u term → g.addressOfName? u.text = some address →
    ∃ t, g.find? address = some t ∧ Denotes g version p u t

theorem Faithful.part (h : Faithful g version p term) (part : IsPart version u term) :
    Faithful g version p u :=
  fun x address inner => h x address (inner.trans part)

theorem faithful_empty (term : TypeTerm) : Faithful .empty version p term :=
  fun _ _ _ named => nomatch named

variable (version p) in
/-- The arrays that are read for a term have lengths that fit a word of 64 bits, and their elements
have bytes that can be counted in one. -/
def Countable (term : TypeTerm) : Prop :=
  ∀ n e, IsPart version (.array n e) term → n < 2 ^ 64 ∧ n * (e.stride p % 2 ^ 64) < 2 ^ 64

theorem Countable.part (h : Countable version p term) (part : IsPart version u term) :
    Countable version p u :=
  fun n e inner => h n e (inner.trans part)

/-- Only texts that are no names in the graph have to be read. -/
theorem isRead_of_unnamed (faithful : Faithful g version p term)
    (unnamed : g.addressOfName? term.text = none → IsRead g version p term) :
    IsRead g version p term := by
  cases named : g.addressOfName? term.text with
  | none => exact unnamed named
  | some address =>
      obtain ⟨t, found, denotes⟩ := faithful term address .self named
      refine ⟨.node address, t, ?_, found, denotes⟩
      rw [parse, named]

/-- Terms whose arrays are not too large are read as what they say. -/
theorem isRead (wide : p = 4 ∨ p = 8) (term : TypeTerm) (faithful : Faithful g version p term)
    (countable : Countable version p term) : IsRead g version p term := by
  induction term using TypeTerm.induction version with
  | basic kind => exact isRead_of_unnamed faithful (isRead_basic wide)
  | slice e ih =>
      have elem := ih (faithful.part (.slice .self)) (countable.part (.slice .self))
      exact isRead_of_unnamed faithful (elem.slice wide)
  | array n e ih =>
      have elem := ih (faithful.part (.array .self)) (countable.part (.array .self))
      obtain ⟨short, small⟩ := countable n e .self
      exact isRead_of_unnamed faithful (elem.array wide short small)
  | pointer e ih =>
      have elem := ih (faithful.part (.pointer .self)) (countable.part (.pointer .self))
      exact isRead_of_unnamed faithful (elem.pointer wide)
  | struct fields ih =>
      have all : ∀ f ∈ fields, IsRead g version p f.2 := by
        intro f mem
        exact ih f mem (faithful.part (.field mem .self)) (countable.part (.field mem .self))
      exact isRead_of_unnamed faithful (isRead_struct wide all)
  | map k v ihKey ihValue ihBucket =>
      have key := ihKey (faithful.part (.key .self)) (countable.part (.key .self))
      have value := ihValue (faithful.part (.value .self)) (countable.part (.value .self))
      have entries := ihBucket (faithful.part (.bucket .self)) (countable.part (.bucket .self))
      exact isRead_of_unnamed faithful (key.map wide value entries)

/-- An array that is read over an empty graph is not too large. -/
theorem countable_of_parse_array (wide : p = 4 ∨ p = 8) {n : Nat} {e : TypeTerm}
    (inside : (parse .empty version p e.text).isSome → Countable version p e)
    (read : (parse .empty version p (array n e).text).isSome) :
    Countable version p (array n e) := by
  rw [parse_array_text rfl] at read
  obtain ⟨b, come⟩ := Option.isSome_iff_exists.mp read
  obtain ⟨length, number, come⟩ := Option.bind_eq_some_iff.mp come
  obtain ⟨handle, parsed, come⟩ := Option.bind_eq_some_iff.mp come
  obtain ⟨t, known, come⟩ := Option.bind_eq_some_iff.mp come
  have element := inside (Option.isSome_of_eq_some parsed)
  intro m x part
  cases part with
  | array part => exact element m x part
  | self =>
      have short : n < 2 ^ 64 := by
        by_contra large
        rw [Text.toUInt64?_decimal, if_neg large] at number
        cases number
      rw [Text.toUInt64?_decimal, if_pos short] at number
      cases number
      obtain ⟨_, t', again, known', denotes⟩ := isRead wide e (faithful_empty e) element
      cases parsed.symm.trans again
      cases known.symm.trans known'
      have sized := Option.isSome_of_eq_some come
      rw [Option.isSome_map] at sized
      exact ⟨short, (isSome_arrayOf?_iff wide denotes.heads short _ _).mp sized⟩

/-- What is read over an empty graph has no array that is too large. -/
theorem countable_of_parse (wide : p = 4 ∨ p = 8) (term : TypeTerm)
    (read : (parse .empty version p term.text).isSome) : Countable version p term := by
  induction term using TypeTerm.induction version with
  | basic kind =>
      intro n x part
      cases part
  | slice e ih =>
      rw [parse_slice_text rfl, Option.isSome_map] at read
      intro n x part
      cases part with
      | slice part => exact ih read n x part
  | array m e ih => exact countable_of_parse_array wide ih read
  | pointer e ih =>
      rw [parse_pointer_text rfl, Option.isSome_map] at read
      intro n x part
      cases part with
      | pointer part => exact ih read n x part
  | struct fields ih =>
      rw [parse_struct_text rfl, declarations_eq_map] at read
      have all := isSome_mapM.mp (Option.isSome_of_isSome_bind read)
      intro n x part
      cases part with
      | @field _ f mem part =>
          have declared := all _ (List.mem_map_of_mem mem)
          rw [member?_declaration, Option.isSome_map] at declared
          exact ih f mem declared n x part
  | map k v ihKey ihValue ihBucket =>
      rw [parse_map_text rfl] at read
      obtain ⟨b, come⟩ := Option.isSome_iff_exists.mp read
      obtain ⟨key, parsedKey, come⟩ := Option.bind_eq_some_iff.mp come
      obtain ⟨value, parsedValue, come⟩ := Option.bind_eq_some_iff.mp come
      obtain ⟨entries, parsedBucket, come⟩ := Option.map_eq_some_iff.mp come
      intro n x part
      cases part with
      | key part => exact ihKey (Option.isSome_of_eq_some parsedKey) n x part
      | value part => exact ihValue (Option.isSome_of_eq_some parsedValue) n x part
      | bucket part => exact ihBucket (Option.isSome_of_eq_some parsedBucket) n x part

end Terms

section Maps

variable {k v : Primitive} (wide : p = 4 ∨ p = 8)

theorem nextMultiple_le (n m : Nat) : nextMultiple n m ≤ n + m - 1 := Nat.div_mul_le_self _ _

include wide

theorem size_basic_le (k : Primitive) : (basic k).size p ≤ 16 := by
  have few : ∀ entry ∈ basicTypes, (entry.2.size 4).toNat ≤ 16 ∧ (entry.2.size 8).toNat ≤ 16 := by
    decide
  have both := few _ (mem_basicTypes k.2)
  rcases wide with rfl | rfl
  · exact both.1
  · exact both.2

omit wide in
/-- Padding is at most seven bytes. -/
theorem padded_le {m : Nat} (h : IsAlignment m) (n : Nat) : nextMultiple n m ≤ n + 7 := by
  have up := nextMultiple_le n m
  have le := h.le_eight
  omega

theorem size_slot_le (k v : Primitive) : (slot (.basic k) (.basic v)).size p ≤ 53 := by
  have alignKey := (basic k).isAlignment wide
  have alignElem := (basic v).isAlignment wide
  have first := padded_le alignKey 0
  have second := padded_le alignElem (nextMultiple 0 ((basic k).align p) + (basic k).size p)
  have last := padded_le (alignKey.max (alignElem.max (.inl rfl)))
    (nextMultiple (nextMultiple 0 ((basic k).align p) + (basic k).size p) ((basic v).align p) +
      (basic v).size p)
  have key := size_basic_le wide k
  have elem := size_basic_le wide v
  refine Nat.le_trans last ?_
  omega

/-- The arrays of a map of basic types are small. -/
theorem small_of_map_basic {n : Nat} {e : TypeTerm}
    (part : IsPart version (.array n e) (.map (.basic k) (.basic v))) :
    n < 2 ^ 64 ∧ n * e.stride p < 2 ^ 64 := by
  obtain ⟨rfl, elem⟩ := part.of_map_basic
  have few : e.size p ≤ 53 := by
    rcases elem with rfl | rfl | rfl | rfl
    · exact Nat.le_trans (size_basic_le wide _) (by decide)
    · exact Nat.le_trans (size_basic_le wide _) (by decide)
    · exact Nat.le_trans (size_basic_le wide _) (by decide)
    · exact size_slot_le wide k v
  have padded := padded_le (e.isAlignment wide) (e.size p)
  rw [stride]
  omega

theorem countable_map_basic : Countable version p (.map (.basic k) (.basic v)) := by
  intro n e part
  obtain ⟨short, small⟩ := small_of_map_basic wide part
  exact ⟨short, Nat.lt_of_le_of_lt (Nat.mul_le_mul_left n (Nat.mod_le _ _)) small⟩

end Maps

end TypeTerm

end GoInspect
