import GoInspect.Proofs.GoType.Term

/-!
# Scans of type texts

The reader of types finds the parts of a text by counting brackets and braces. A text is balanced if
a count of brackets comes out of it as it went in, and uncut if the search for semicolons passes
over it; both hold of the texts of all terms, and so the scans find the parts that a text was put
together from.
-/

namespace GoInspect

namespace TypeSyntax

open TypeTerm (structText)

variable {s t u : Text}

section Brackets

variable {b : UInt8}

/-- The search for a closing bracket passes over the text. -/
def Balanced (t : Text) : Prop :=
  ∀ level u, closeBracket? level (t ++ u) =
    (closeBracket? level u).map fun (before, after) => (t ++ before, after)

theorem closeBracket?_cons (plain : b ≠ 91 ∧ b ≠ 93) (level : Nat) :
    closeBracket? level (b :: u) =
      (closeBracket? level u).map fun (before, after) => (b :: before, after) := by
  have level' : (if b = 91 then level + 1 else level) = level := if_neg plain.1
  exact (if_neg plain.2).trans (by rw [level'])

theorem closeBracket?_open (level : Nat) : closeBracket? level (91 :: u) =
    (closeBracket? (level + 1) u).map fun (before, after) => (91 :: before, after) := rfl

theorem closeBracket?_close (level : Nat) : closeBracket? (level + 1) (93 :: u) =
    (closeBracket? level u).map fun (before, after) => (93 :: before, after) := rfl

theorem closeBracket?_last : closeBracket? 0 (93 :: u) = some ([], u) := rfl

/-- A text without brackets. -/
theorem balanced_of_all (plain : t.all fun b => b != 91 && b != 93) : Balanced t := by
  induction t with
  | nil =>
      intro level u
      exact Option.map_id'.symm
  | cons b rest ih =>
      rw [List.all_cons, Bool.and_eq_true, Bool.and_eq_true, bne_iff_ne, bne_iff_ne] at plain
      obtain ⟨first, later⟩ := plain
      intro level u
      rw [List.cons_append, closeBracket?_cons first, ih later, Option.map_map]
      rfl

theorem Balanced.append (hs : Balanced s) (ht : Balanced t) : Balanced (s ++ t) := by
  intro level u
  rw [List.append_assoc, hs, ht, Option.map_map]
  simp only [Function.comp_def, List.append_assoc]

theorem Balanced.bracketed (h : Balanced t) : Balanced (utf8 "[" ++ (t ++ utf8 "]")) := by
  intro level u
  have text : utf8 "[" ++ (t ++ utf8 "]") ++ u = 91 :: (t ++ 93 :: u) := by
    show 91 :: (t ++ [93] ++ u) = _
    rw [List.append_assoc]
    rfl
  rw [text, closeBracket?_open, h, closeBracket?_close, Option.map_map, Option.map_map]
  congr 1
  funext ⟨before, after⟩
  show (91 :: (t ++ 93 :: before), after) = (91 :: (t ++ [93] ++ before), after)
  rw [List.append_assoc]
  rfl

/-- Key and element of a map are found. -/
theorem mapParts?_append (h : Balanced t) (nonempty : u ≠ []) :
    mapParts? (utf8 "map[" ++ (t ++ (utf8 "]" ++ u))) = some (t, u) := by
  have found : closeBracket? 0 (t ++ 93 :: u) = some (t, u) := by
    rw [h, closeBracket?_last, Option.map_some]
    exact congrArg (fun t => some (t, u)) (List.append_nil t)
  have rest : (utf8 "map[" ++ (t ++ (utf8 "]" ++ u))).drop 4 = t ++ 93 :: u :=
    List.drop_left' rfl
  unfold mapParts?
  rw [rest, found]
  exact Option.filter_some_pos (by simpa using nonempty)

end Brackets

section Semicolons

def prepend (t : Text) : List Text → List Text
  | [] => [t]
  | piece :: others => (t ++ piece) :: others

theorem prepend_prepend (s t : Text) (ps : List Text) :
    prepend s (prepend t ps) = prepend (s ++ t) ps := by
  cases ps with
  | nil => rfl
  | cons piece others => rw [prepend, prepend, prepend, List.append_assoc]

/-- The search for semicolons passes over the text if so many braces are open at least. -/
def Uncut (least : Int) (t : Text) : Prop :=
  ∀ level, least ≤ level → ∀ u,
    cutAtSemicolons level (t ++ u) = prepend t (cutAtSemicolons level u)

variable {least : Int}

theorem cutAtSemicolons_ne_nil (level : Int) (t : Text) : cutAtSemicolons level t ≠ [] := by
  cases t with
  | nil => exact List.cons_ne_nil _ _
  | cons b rest =>
      rw [cutAtSemicolons]
      split
      · exact List.cons_ne_nil _ _
      · dsimp only
        split <;> exact List.cons_ne_nil _ _

theorem Uncut.mono {more : Int} (h : Uncut least t) (le : least ≤ more) : Uncut more t :=
  fun level many u => h level (Int.le_trans le many) u

theorem uncut_nil : Uncut least [] := by
  intro level _ u
  cases eq : cutAtSemicolons level u with
  | nil => exact absurd eq (cutAtSemicolons_ne_nil level u)
  | cons piece others => exact eq

theorem Uncut.append (hs : Uncut least s) (ht : Uncut least t) : Uncut least (s ++ t) := by
  intro level many u
  rw [List.append_assoc, hs level many, ht level many, prepend_prepend]

theorem cutAtSemicolons_cons {level : Int} {b : UInt8} (uncut : ¬(b = 59 ∧ level = 0)) :
    cutAtSemicolons level (b :: u) = prepend [b] (cutAtSemicolons
      (if b = 123 then level + 1 else if b = 125 then level - 1 else level) u) := by
  rw [cutAtSemicolons, if_neg uncut]
  dsimp only
  generalize cutAtSemicolons _ u = pieces
  cases pieces <;> rfl

/-- A text without semicolons and braces. -/
theorem uncut_of_all (plain : t.all fun b => b != 59 && (b != 123 && b != 125)) :
    Uncut least t := by
  induction t with
  | nil => exact uncut_nil
  | cons b rest ih =>
      rw [List.all_cons, Bool.and_eq_true, Bool.and_eq_true, Bool.and_eq_true, bne_iff_ne,
        bne_iff_ne, bne_iff_ne] at plain
      obtain ⟨⟨noSemicolon, noOpening, noClosing⟩, later⟩ := plain
      intro level many u
      rw [List.cons_append, cutAtSemicolons_cons fun cut => noSemicolon cut.1, if_neg noOpening,
        if_neg noClosing, ih later level many, prepend_prepend]
      rfl

/-- Between braces semicolons do not count. -/
theorem uncut_semicolon : Uncut 1 (utf8 "; ") := by
  have blank : Uncut 1 (utf8 " ") := uncut_of_all rfl
  intro level many u
  have inside : ¬((59 : UInt8) = 59 ∧ level = 0) := by omega
  have cut : cutAtSemicolons level (59 :: (utf8 " " ++ u)) = prepend [59] (cutAtSemicolons level
      (utf8 " " ++ u)) := cutAtSemicolons_cons inside
  exact cut.trans (by rw [blank level many, prepend_prepend]; rfl)

theorem Uncut.braced (h : Uncut (least + 1) t) : Uncut least (123 :: (t ++ [125])) := by
  intro level many u
  have text : 123 :: (t ++ [125]) ++ u = 123 :: (t ++ 125 :: u) := by simp
  have opening : ¬((123 : UInt8) = 59 ∧ level = 0) := fun cut => absurd cut.1 (by decide)
  have closing : ¬((125 : UInt8) = 59 ∧ level + 1 = 0) := fun cut => absurd cut.1 (by decide)
  rw [text, cutAtSemicolons_cons opening, if_pos rfl, h (level + 1) (by omega),
    cutAtSemicolons_cons closing, if_neg (by decide), if_pos rfl, Int.add_sub_cancel,
    prepend_prepend, prepend_prepend]
  simp

/-- Declarations with semicolons between them. -/
theorem uncut_join {ds : List Text} (all : ∀ d ∈ ds, Uncut 1 d) :
    Uncut 1 (Text.join (utf8 "; ") ds) := by
  induction ds with
  | nil => exact uncut_nil
  | cons d rest ih =>
      obtain ⟨first, later⟩ := List.forall_mem_cons.mp all
      cases rest with
      | nil => rwa [Text.join, List.intercalate_singleton]
      | cons e rest =>
          rw [Text.join, List.intercalate_cons_cons]
          exact (first.append uncut_semicolon).append (ih later)

/-- The pieces between the semicolons are the declarations, those behind the first one with a blank
before them. -/
theorem cutAtSemicolons_join {d : Text} {rest : List Text} (first : Uncut 0 d)
    (later : ∀ e ∈ rest, Uncut 0 e) :
    cutAtSemicolons 0 (Text.join (utf8 "; ") (d :: rest)) =
      d :: rest.map (utf8 " " ++ ·) := by
  induction rest generalizing d with
  | nil =>
      have whole := first 0 (Int.le_refl 0) []
      rw [List.append_nil] at whole
      rw [Text.join, List.intercalate_singleton, whole]
      show [d ++ []] = [d]
      rw [List.append_nil]
  | cons e rest ih =>
      obtain ⟨second, others⟩ := List.forall_mem_cons.mp later
      have blank : Uncut 0 (utf8 " ") := uncut_of_all rfl
      have cut : cutAtSemicolons 0 (utf8 "; " ++ Text.join (utf8 "; ") (e :: rest)) =
          [] :: cutAtSemicolons 0 (utf8 " " ++ Text.join (utf8 "; ") (e :: rest)) := rfl
      rw [Text.join, List.intercalate_cons_cons, List.append_assoc, first 0 (Int.le_refl 0),
        ← Text.join, cut, blank 0 (Int.le_refl 0), ih second others]
      show (d ++ []) :: _ = _
      rw [List.append_nil]
      rfl

end Semicolons

section Structs

theorem solid_join {d : Text} {rest : List Text} (first : Text.Solid d)
    (later : ∀ e ∈ rest, Text.Solid e) : Text.Solid (Text.join (utf8 "; ") (d :: rest)) := by
  induction rest generalizing d with
  | nil => rwa [Text.join, List.intercalate_singleton]
  | cons e rest ih =>
      obtain ⟨second, others⟩ := List.forall_mem_cons.mp later
      rw [Text.join, List.intercalate_cons_cons, List.append_assoc]
      exact Text.solid_around first.1 (ih second others).2 _

/-- The body of a struct in canonical form. -/
theorem structBody?_structText {ds : List Text} (solid : ∀ d ∈ ds, Text.Solid d) :
    structBody? (structText ds) = some (Text.join (utf8 "; ") ds) := by
  cases ds with
  | nil => decide
  | cons d rest =>
      obtain ⟨first, later⟩ := List.forall_mem_cons.mp solid
      have inner := solid_join first later
      show structBody?
        (utf8 "struct \x7b " ++ (Text.join (utf8 "; ") (d :: rest) ++ utf8 " \x7d")) = _
      generalize Text.join (utf8 "; ") (d :: rest) = body at inner
      have braces : Text.trim ((utf8 "struct \x7b " ++ (body ++ utf8 " \x7d")).drop 6) =
          utf8 "\x7b " ++ (body ++ utf8 " \x7d") := by
        have around : Text.Solid (utf8 "\x7b " ++ (body ++ utf8 " \x7d")) :=
          Text.solid_around (by decide) (by decide) body
        have trimmed :
            Text.trim (utf8 " " ++ ((utf8 "\x7b " ++ (body ++ utf8 " \x7d")) ++ [])) = _ :=
          around.trim_between rfl rfl
        rwa [List.append_nil] at trimmed
      have last : (utf8 "\x7b " ++ (body ++ utf8 " \x7d")).getLast? = some 125 := by
        rw [← List.append_assoc, List.getLast?_append_of_ne_nil _ (by decide)]
        rfl
      have length : (utf8 "\x7b " ++ (body ++ utf8 " \x7d")).length - 2 =
          (utf8 " " ++ (body ++ utf8 " ")).length := by
        simp only [List.length_append]
        show 2 + (body.length + 2) - 2 = 1 + (body.length + 1)
        omega
      have text : (utf8 "\x7b " ++ (body ++ utf8 " \x7d")).drop 1 =
          utf8 " " ++ (body ++ utf8 " ") ++ utf8 "\x7d" := by
        show utf8 " " ++ (body ++ (utf8 " " ++ utf8 "\x7d")) = _
        rw [List.append_assoc, List.append_assoc]
      unfold structBody?
      dsimp only
      rw [braces, if_pos ⟨rfl, last⟩, length, text, List.take_left]
      exact congrArg some (inner.trim_between rfl rfl)

/-- The declarations of a struct in canonical form, where a blank before them makes no difference.
-/
theorem mapM_declarations_join {ds : List Text} (nonempty : ∀ d ∈ ds, d ≠ [])
    (uncut : ∀ d ∈ ds, Uncut 0 d) {β : Type} {f : Text → Option β}
    (trimmed : ∀ d ∈ ds, f (utf8 " " ++ d) = f d) :
    (declarations (Text.join (utf8 "; ") ds)).mapM f = ds.mapM f := by
  cases ds with
  | nil => rfl
  | cons d rest =>
      obtain ⟨first, later⟩ := List.forall_mem_cons.mp uncut
      have last : (d :: rest.map (utf8 " " ++ ·)).getLast? ≠ some [] := by
        intro eq
        obtain empty | mem := List.mem_cons.mp (List.mem_of_getLast? eq)
        · exact nonempty d List.mem_cons_self empty.symm
        · obtain ⟨e, _, empty⟩ := List.mem_map.mp mem
          cases empty
      have others : (rest.map (utf8 " " ++ ·)).mapM f = rest.mapM f := by
        rw [List.mapM_map]
        exact mapM_congr fun e mem => trimmed e (List.mem_cons_of_mem d mem)
      rw [declarations, cutAtSemicolons_join first later, if_neg last, List.mapM_cons,
        List.mapM_cons, others]

end Structs

section Terms

/-- A text that blanks can be put around and that all scans pass over. -/
structure Tidy (t : Text) : Prop where
  solid : Text.Solid t
  balanced : Balanced t
  uncut : Uncut 0 t

theorem isNameByte_iff {b : UInt8} : Text.isNameByte b ↔
    Text.isBlank b = false ∧ b ≠ 59 ∧ b ≠ 91 ∧ b ≠ 93 ∧ b ≠ 123 ∧ b ≠ 125 := by
  simp [Text.isNameByte]

theorem tidy_of_all (nonempty : t ≠ []) (plain : t.all Text.isNameByte) : Tidy t where
  solid := by
    apply Text.solid_of_forall nonempty
    intro b mem
    exact (isNameByte_iff.mp (List.all_eq_true.mp plain b mem)).1
  balanced := by
    apply balanced_of_all
    rw [List.all_eq_true]
    intro b mem
    obtain ⟨_, _, opening, closing, _⟩ := isNameByte_iff.mp (List.all_eq_true.mp plain b mem)
    rw [Bool.and_eq_true, bne_iff_ne, bne_iff_ne]
    exact ⟨opening, closing⟩
  uncut := by
    apply uncut_of_all
    rw [List.all_eq_true]
    intro b mem
    obtain ⟨_, semicolon, _, _, braces⟩ :=
      isNameByte_iff.mp (List.all_eq_true.mp plain b mem)
    rw [Bool.and_eq_true, Bool.and_eq_true, bne_iff_ne, bne_iff_ne, bne_iff_ne]
    exact ⟨semicolon, braces⟩

theorem Tidy.append (hs : Tidy s) (ht : Tidy t) : Tidy (s ++ t) where
  solid := Text.solid_around hs.solid.1 ht.solid.2 []
  balanced := hs.balanced.append ht.balanced
  uncut := hs.uncut.append ht.uncut

/-- Something in brackets in front of a tidy text. -/
theorem Tidy.bracketed (balanced : Balanced u) (uncut : Uncut 0 u) (h : Tidy t) :
    Tidy (utf8 "[" ++ (u ++ (utf8 "]" ++ t))) where
  solid := by
    rw [← List.append_assoc u]
    exact Text.solid_around rfl h.solid.2 _
  balanced := by
    rw [← List.append_assoc u, ← List.append_assoc]
    exact balanced.bracketed.append h.balanced
  uncut := by
    have opening : Uncut 0 (utf8 "[") := uncut_of_all rfl
    have closing : Uncut 0 (utf8 "]") := uncut_of_all rfl
    exact opening.append (uncut.append (closing.append h.uncut))

/-- A name and a type with a blank between them. -/
theorem Tidy.declaration (hs : Tidy s) (ht : Tidy t) : Tidy (s ++ (utf8 " " ++ t)) where
  solid := Text.solid_around hs.solid.1 ht.solid.2 _
  balanced := by
    have blank : Balanced (utf8 " ") := balanced_of_all rfl
    exact hs.balanced.append (blank.append ht.balanced)
  uncut := by
    have blank : Uncut 0 (utf8 " ") := uncut_of_all rfl
    exact hs.uncut.append (blank.append ht.uncut)

theorem balanced_join {ds : List Text} (all : ∀ d ∈ ds, Balanced d) :
    Balanced (Text.join (utf8 "; ") ds) := by
  have separator : Balanced (utf8 "; ") := balanced_of_all rfl
  induction ds with
  | nil => exact balanced_of_all rfl
  | cons d rest ih =>
      obtain ⟨first, later⟩ := List.forall_mem_cons.mp all
      cases rest with
      | nil => rwa [Text.join, List.intercalate_singleton]
      | cons e rest =>
          rw [Text.join, List.intercalate_cons_cons]
          exact (first.append separator).append (ih later)

theorem tidy_structText {ds : List Text} (all : ∀ d ∈ ds, Tidy d) : Tidy (structText ds) := by
  have keyword : Uncut 0 (utf8 "struct ") := uncut_of_all rfl
  cases ds with
  | nil =>
      refine ⟨by decide, balanced_of_all rfl, ?_⟩
      exact keyword.append uncut_nil.braced
  | cons d rest =>
      generalize eq : d :: rest = ds at all
      have text : structText ds =
          utf8 "struct \x7b " ++ (Text.join (utf8 "; ") ds ++ utf8 " \x7d") := by
        rw [← eq]
        rfl
      rw [text]
      refine ⟨Text.solid_around rfl rfl _, ?_, ?_⟩
      · have front : Balanced (utf8 "struct \x7b ") := balanced_of_all rfl
        have back : Balanced (utf8 " \x7d") := balanced_of_all rfl
        exact front.append ((balanced_join fun d mem => (all d mem).balanced).append back)
      · have blank : Uncut 1 (utf8 " ") := uncut_of_all rfl
        have inner : Uncut 1 (Text.join (utf8 "; ") ds) :=
          uncut_join fun d mem => (all d mem).uncut.mono (by decide)
        have braced :
            Uncut 0 (123 :: ((utf8 " " ++ (Text.join (utf8 "; ") ds ++ utf8 " ")) ++ [125])) :=
          (blank.append (inner.append blank)).braced
        rw [List.append_assoc, List.append_assoc] at braced
        exact keyword.append braced

theorem tidy_name (name : FieldName) : Tidy name.text := tidy_of_all name.nonempty name.plain

theorem tidy_text (t : TypeTerm) : Tidy t.text := by
  induction t using TypeTerm.structural with
  | basic kind =>
      have plain : ∀ kind : BasicKind, kind.spelling ≠ [] ∧
          kind.spelling.all Text.isNameByte := by
        intro kind
        cases kind <;> exact ⟨List.cons_ne_nil _ _, rfl⟩
      exact tidy_of_all (plain kind.1).1 (plain kind.1).2
  | slice e ih => exact ih.bracketed (balanced_of_all rfl) uncut_nil
  | array n e ih =>
      have plain : (Text.decimal n).all Text.isNameByte :=
        List.all_eq_true.mpr (Text.forall_decimal (by decide))
      have length := tidy_of_all (Text.solid_decimal n).ne_nil plain
      exact ih.bracketed length.balanced length.uncut
  | pointer e ih =>
      have star : Tidy (utf8 "*") := tidy_of_all (List.cons_ne_nil _ _) rfl
      exact star.append ih
  | struct fields ih =>
      rw [TypeTerm.text, TypeTerm.declarations_eq_map]
      apply tidy_structText
      intro d mem
      obtain ⟨f, inside, rfl⟩ := List.mem_map.mp mem
      exact (tidy_name f.1).declaration (ih f inside)
  | map k v ihKey ihValue =>
      have keyword : Tidy (utf8 "map") := tidy_of_all (List.cons_ne_nil _ _) rfl
      exact keyword.append (ihValue.bracketed ihKey.balanced ihKey.uncut)

end Terms

end TypeSyntax

end GoInspect
