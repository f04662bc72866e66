import GoInspect.Proofs.GoType.Syntax
import GoInspect.Proofs.Text.Number

/-!
# Types as they are written

The types that have a text in canonical form, and that text: one blank where blanks are allowed, and
nothing else. A map brings a struct of its own with it, the bucket or the group that its entries are
kept in; the text of that struct is read like any other, so it is a term as well. Everything about
terms is proved along the same induction, in which that struct comes after key and element.
-/

namespace GoInspect

/-- A byte that may stand in the name of a field: no blank, no brace or bracket and no semicolon. -/
def Text.isNameByte (b : UInt8) : Bool :=
  !Text.isBlank b && !([59, 91, 93, 123, 125].contains b)

structure FieldName where
  /-- The bytes of the name. -/
  text : Text
  nonempty : text ≠ []
  plain : text.all Text.isNameByte

/-- A basic type that can be written. -/
abbrev Primitive := { kind : BasicKind // kind ≠ .invalid }

/-- A type as it is written. The length of an array has no bound. -/
inductive TypeTerm where
  | basic (kind : Primitive)
  | slice (elem : TypeTerm)
  | array (length : Nat) (elem : TypeTerm)
  | pointer (elem : TypeTerm)
  | struct (fields : List (FieldName × TypeTerm))
  | map (key value : TypeTerm)

namespace TypeTerm

section Texts

def structText : List Text → Text
  | [] => utf8 "struct \x7b\x7d"
  | ds => utf8 "struct \x7b " ++ (Text.join (utf8 "; ") ds ++ utf8 " \x7d")

mutual

def text : TypeTerm → Text
  | basic kind => kind.1.spelling
  | slice e => utf8 "[]" ++ e.text
  | array n e => utf8 "[" ++ (Text.decimal n ++ (utf8 "]" ++ e.text))
  | pointer e => utf8 "*" ++ e.text
  | struct fields => structText (declarations fields)
  | map k v => utf8 "map[" ++ (k.text ++ (utf8 "]" ++ v.text))

def declarations : List (FieldName × TypeTerm) → List Text
  | [] => []
  | (name, t) :: rest => (name.text ++ (utf8 " " ++ t.text)) :: declarations rest

end

theorem declarations_eq_map (fields : List (FieldName × TypeTerm)) :
    declarations fields = fields.map fun f => f.1.text ++ (utf8 " " ++ f.2.text) := by
  induction fields with
  | nil => rfl
  | cons f rest ih => rw [declarations, ih, List.map_cons]

end Texts

section Buckets

def bucketName (name : String) (good : utf8 name ≠ [] ∧ (utf8 name).all Text.isNameByte) :
    FieldName :=
  ⟨utf8 name, good.1, good.2⟩

def uint8 : TypeTerm := .basic ⟨.uint8, by decide⟩

def uint64 : TypeTerm := .basic ⟨.uint64, by decide⟩

def uintptr : TypeTerm := .basic ⟨.uintptr, by decide⟩

variable (version : VersionBound) (key value : TypeTerm)

def slot : TypeTerm :=
  .struct [(bucketName "key" (by decide), key), (bucketName "elem" (by decide), value)]

def legacyFields : List (FieldName × TypeTerm) :=
  [(bucketName "topbits" (by decide), .array 8 uint8),
    (bucketName "keys" (by decide), .array 8 key),
    (bucketName "elems" (by decide), .array 8 value),
    (bucketName "overflow" (by decide), uintptr)]

def groupFields : List (FieldName × TypeTerm) :=
  [(bucketName "ctrl" (by decide), uint64),
    (bucketName "slots" (by decide), .array 8 (slot key value))]

/-- The fields of the struct that the entries of a map are kept in. -/
def bucketFields : List (FieldName × TypeTerm) :=
  if version.swissMaps then groupFields key value else legacyFields key value

/-- The struct that the entries of a map are kept in. -/
def bucket : TypeTerm := .struct (bucketFields version key value)

theorem text_bucket : (bucket version key value).text =
    TypeSyntax.bucketText version key.text value.text := by
  have eight : Text.decimal 8 = [56] := by
    rw [Text.decimal, Text.ofNat, Text.digits_of_lt (by decide)]
    rfl
  rw [bucket, bucketFields, TypeSyntax.bucketText]
  split
  · have front : utf8 "struct \x7b ctrl uint64; slots [8]struct \x7b key " =
        utf8 "struct \x7b " ++ (utf8 "ctrl" ++ (utf8 " " ++ (utf8 "uint64" ++ (utf8 "; " ++
          (utf8 "slots" ++ (utf8 " " ++ (utf8 "[" ++ ([56] ++ (utf8 "]" ++ (utf8 "struct \x7b " ++
            (utf8 "key" ++ utf8 " "))))))))))) := by decide
    have middle : utf8 "; elem " = utf8 "; " ++ (utf8 "elem" ++ utf8 " ") := by decide
    have back : utf8 " \x7d \x7d" = utf8 " \x7d" ++ utf8 " \x7d" := by decide
    rw [front, middle, back]
    simp [text, declarations, structText, groupFields, slot, bucketName, uint64, Text.join,
      List.intercalate, List.intersperse, BasicKind.spelling, eight]
  · have front : utf8 "struct \x7b topbits [8]uint8; keys [8]" =
        utf8 "struct \x7b " ++ (utf8 "topbits" ++ (utf8 " " ++ (utf8 "[" ++ ([56] ++ (utf8 "]" ++
          (utf8 "uint8" ++ (utf8 "; " ++ (utf8 "keys" ++ (utf8 " " ++ (utf8 "[" ++ ([56] ++
            utf8 "]"))))))))))) := by decide
    have middle : utf8 "; elems [8]" =
        utf8 "; " ++ (utf8 "elems" ++ (utf8 " " ++ (utf8 "[" ++ ([56] ++ utf8 "]")))) := by decide
    have back : utf8 "; overflow uintptr \x7d" =
        utf8 "; " ++ (utf8 "overflow" ++ (utf8 " " ++ (utf8 "uintptr" ++ utf8 " \x7d"))) := by
      decide
    rw [front, middle, back]
    simp [text, declarations, structText, legacyFields, bucketName, uint8, uintptr, Text.join,
      List.intercalate, List.intersperse, BasicKind.spelling, eight]

end Buckets

section Induction

variable (version : VersionBound)
variable {P : TypeTerm → Prop} (basic : ∀ kind, P (.basic kind)) (slice : ∀ e, P e → P (.slice e))
  (array : ∀ n e, P e → P (.array n e)) (pointer : ∀ e, P e → P (.pointer e))
  (struct : ∀ fields, (∀ f ∈ fields, P f.2) → P (.struct fields))

include basic slice array pointer struct in
/-- Induction on a term. -/
theorem structural (map : ∀ k v, P k → P v → P (.map k v)) (t : TypeTerm) : P t :=
  @TypeTerm.rec P (fun fields => ∀ f ∈ fields, P f.2) (fun f => P f.2) basic slice array pointer
    struct map (fun _ none => nomatch none)
    (fun _ _ first later => List.forall_mem_cons.mpr ⟨first, later⟩) (fun _ _ h => h) t

include basic array struct in
/-- What is kept by arrays and structs holds of the bucket of a map if it holds of key and
element. -/
theorem bucket_induction {key value : TypeTerm} (hk : P key) (hv : P value) :
    P (bucket version key value) := by
  have names : P (slot key value) := by
    refine struct _ (List.forall_mem_cons.mpr ⟨hk, List.forall_mem_singleton.mpr hv⟩)
  refine struct _ ?_
  rw [bucketFields]
  split
  · exact List.forall_mem_cons.mpr ⟨basic _, List.forall_mem_singleton.mpr (array _ _ names)⟩
  · exact List.forall_mem_cons.mpr ⟨array _ _ (basic _), List.forall_mem_cons.mpr
      ⟨array _ _ hk, List.forall_mem_cons.mpr
        ⟨array _ _ hv, List.forall_mem_singleton.mpr (basic _)⟩⟩⟩

include basic slice array pointer struct in
/-- Induction on a term in which the bucket of a map comes before the map. -/
theorem induction (map : ∀ k v, P k → P v → P (bucket version k v) → P (.map k v)) (t : TypeTerm) :
    P t :=
  structural basic slice array pointer struct
    (fun k v hk hv => map k v hk hv (bucket_induction version basic array struct hk hv)) t

end Induction

/-- A type is read where another one is: itself, its elements and fields, and the bucket of a
map. -/
inductive IsPart (version : VersionBound) (u : TypeTerm) : TypeTerm → Prop where
  | self : IsPart version u u
  | slice {e : TypeTerm} : IsPart version u e → IsPart version u (.slice e)
  | array {n : Nat} {e : TypeTerm} : IsPart version u e → IsPart version u (.array n e)
  | pointer {e : TypeTerm} : IsPart version u e → IsPart version u (.pointer e)
  | field {fields : List (FieldName × TypeTerm)} {f : FieldName × TypeTerm} : f ∈ fields →
      IsPart version u f.2 → IsPart version u (.struct fields)
  | key {k v : TypeTerm} : IsPart version u k → IsPart version u (.map k v)
  | value {k v : TypeTerm} : IsPart version u v → IsPart version u (.map k v)
  | bucket {k v : TypeTerm} : IsPart version u (bucket version k v) → IsPart version u (.map k v)

/-- Parts of parts are parts. -/
theorem IsPart.trans {version : VersionBound} {u s t : TypeTerm} (inner : IsPart version u s)
    (outer : IsPart version s t) : IsPart version u t := by
  induction outer with
  | self => exact inner
  | slice _ ih => exact .slice ih
  | array _ ih => exact .array ih
  | pointer _ ih => exact .pointer ih
  | field mem _ ih => exact .field mem ih
  | key _ ih => exact .key ih
  | value _ ih => exact .value ih
  | bucket _ ih => exact .bucket ih

section Parts

variable {version : VersionBound} {n m : Nat} {e : TypeTerm} {k v : Primitive}

theorem IsPart.of_array_basic (part : IsPart version (.array n e) (.array m (.basic k))) :
    n = m ∧ e = .basic k := by
  cases part with
  | self => exact ⟨rfl, rfl⟩
  | array part => cases part

/-- The arrays of a map of basic types are those of its bucket. -/
theorem IsPart.of_map_basic (part : IsPart version (.array n e) (.map (.basic k) (.basic v))) :
    n = 8 ∧ (e = uint8 ∨ e = .basic k ∨ e = .basic v ∨ e = slot (.basic k) (.basic v)) := by
  cases part with
  | key part => cases part
  | value part => cases part
  | bucket part =>
      rw [TypeTerm.bucket] at part
      cases part with
      | field mem part =>
          rw [bucketFields] at mem
          split at mem
          · obtain rfl | mem := List.mem_cons.mp mem
            · cases part
            · rw [List.mem_singleton.mp mem] at part
              cases part with
              | self => exact ⟨rfl, .inr (.inr (.inr rfl))⟩
              | array part =>
                  cases part with
                  | field mem part =>
                      obtain rfl | mem := List.mem_cons.mp mem
                      · cases part
                      · rw [List.mem_singleton.mp mem] at part
                        cases part
          · obtain rfl | mem := List.mem_cons.mp mem
            · exact ⟨part.of_array_basic.1, .inl part.of_array_basic.2⟩
            · obtain rfl | mem := List.mem_cons.mp mem
              · exact ⟨part.of_array_basic.1, .inr (.inl part.of_array_basic.2)⟩
              · obtain rfl | mem := List.mem_cons.mp mem
                · exact ⟨part.of_array_basic.1, .inr (.inr (.inl part.of_array_basic.2))⟩
                · rw [List.mem_singleton.mp mem] at part
                  cases part

end Parts

open TypeSyntax (basicTypes Room)

section Layout

def room (kind : BasicKind) : Room := (basicTypes.lookup kind).getD (.words 1)

theorem mem_basicTypes {kind : BasicKind} (valid : kind ≠ .invalid) :
    (kind, room kind) ∈ basicTypes := by
  cases kind with
  | invalid => exact absurd rfl valid
  | _ => decide

variable (p : UInt32)

mutual

/-- What the places of objects are multiples of. -/
def align : TypeTerm → Nat
  | basic kind => ((room kind.1).align p).toNat
  | slice _ => p.toNat
  | array _ e => e.align
  | pointer _ => p.toNat
  | struct fields => alignAll fields
  | map _ _ => p.toNat

/-- What the places of structs of the fields are multiples of. -/
def alignAll : List (FieldName × TypeTerm) → Nat
  | [] => 1
  | (_, t) :: rest => max t.align (alignAll rest)

end

mutual

/-- The bytes of an object, counted without bound. -/
def size : TypeTerm → Nat
  | basic kind => ((room kind.1).size p).toNat
  | slice _ => 3 * p.toNat
  | array n e => n * nextMultiple e.size (e.align p)
  | pointer _ => p.toNat
  | struct fields => nextMultiple (stop 0 fields) (alignAll p fields)
  | map _ _ => p.toNat

/-- The end of the last field, where the first one lies no earlier than at `start`. -/
def stop (start : Nat) : List (FieldName × TypeTerm) → Nat
  | [] => start
  | (_, t) :: rest => stop (nextMultiple start (t.align p) + t.size) rest

end

/-- The bytes from one element of an array to the next. -/
def stride (t : TypeTerm) : Nat := nextMultiple (t.size p) (t.align p)

end Layout

section Denotation

variable (g : TypeGraph) (version : VersionBound) (p : UInt32)

/-- A type has the name of a term, and its objects the room that those of the term take, as far as
words of 64 bits go. -/
structure Heads (term : TypeTerm) (t : GoType) : Prop where
  name : t.name = term.text
  version : t.version = version
  size : t.size = UInt64.ofNat (term.size p)
  align : t.align = UInt64.ofNat (term.align p)

mutual

/-- A type is what a term says: it has the kind, the length and the names of the fields, and the
types in it are what the parts of the term say. -/
inductive Denotes : TypeTerm → GoType → Prop where
  | basic {kind : Primitive} {t : GoType} : Heads version p (.basic kind) t →
      t.shape = .basic kind.1 → Denotes (.basic kind) t
  | slice {e : TypeTerm} {t te : GoType} {elem : TypeRef GoType} : Heads version p (.slice e) t →
      t.shape = .slice elem → g.deref? elem = some te → Denotes e te → Denotes (.slice e) t
  | array {n : Nat} {e : TypeTerm} {t te : GoType} {elem sliceType : TypeRef GoType}
      {length : UInt64} : Heads version p (.array n e) t →
      t.shape = .array elem sliceType length → length.toNat = n → g.deref? elem = some te →
      Denotes e te → Denotes (.array n e) t
  | pointer {e : TypeTerm} {t te : GoType} {elem : TypeRef GoType} :
      Heads version p (.pointer e) t → t.shape = .pointer elem → g.deref? elem = some te →
      Denotes e te → Denotes (.pointer e) t
  | struct {fields : List (FieldName × TypeTerm)} {t : GoType}
      {declared : List (Field (TypeRef GoType))} : Heads version p (.struct fields) t →
      t.shape = .struct declared → DenoteFields 0 fields declared → Denotes (.struct fields) t
  | map {k v : TypeTerm} {t tk tv tb : GoType} {key value entries : TypeRef GoType} :
      Heads version p (.map k v) t → t.shape = .map key value entries → g.deref? key = some tk →
      Denotes k tk → g.deref? value = some tv → Denotes v tv → g.deref? entries = some tb →
      Denotes (bucket version k v) tb → Denotes (.map k v) t

/-- Declared fields are what the fields of a term say. Each lies at the next place that fits its
alignment, the first one no earlier than at `start`. -/
inductive DenoteFields :
    (start : Nat) → List (FieldName × TypeTerm) → List (Field (TypeRef GoType)) → Prop where
  | nil {start : Nat} : DenoteFields start [] []
  | cons {start : Nat} {name : FieldName} {type : TypeTerm} {t : GoType} {r : TypeRef GoType}
      {rest : List (FieldName × TypeTerm)} {others : List (Field (TypeRef GoType))} :
      g.deref? r = some t → Denotes type t →
      DenoteFields (nextMultiple start (type.align p) + type.size p) rest others →
      DenoteFields start ((name, type) :: rest)
        (⟨name.text, r, UInt64.ofNat (nextMultiple start (type.align p))⟩ :: others)

end

variable {g version p}

theorem Denotes.heads {term : TypeTerm} {t : GoType} (h : Denotes g version p term t) :
    Heads version p term t := by
  cases h with
  | basic heads | slice heads | array heads | pointer heads | struct heads | map heads =>
    exact heads

/-- Declared fields have the names of the fields of a term. -/
theorem DenoteFields.names {start : Nat} {fields : List (FieldName × TypeTerm)}
    {declared : List (Field (TypeRef GoType))}
    (h : DenoteFields g version p start fields declared) :
    declared.map Field.name = fields.map fun f => f.1.text := by
  induction fields generalizing start declared with
  | nil =>
      cases h
      rfl
  | cons f rest ih =>
      cases h with
      | cons known denotes later => exact congrArg (_ :: ·) (ih later)

end Denotation

end TypeTerm

end GoInspect
