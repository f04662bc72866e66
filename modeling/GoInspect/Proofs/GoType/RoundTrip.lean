import GoInspect.Proofs.GoType.Parse
import GoInspect.Proofs.GoType.Render

/-!
# Texts of types and types of texts

A type that is what a term says is shown as the text of the term, whatever the depth: a part that
the depth does not reach is shown by its name, and that is its text. Over an empty graph the text of
a term is therefore read as a type that is shown by the same text, unless an array is too large.
-/

namespace GoInspect

namespace TypeTerm

open TypeSyntax GoType

variable {g : TypeGraph} {version : VersionBound} {p : UInt32}

section Length

theorem length_le_join (separator : Text) {d : Text} {ds : List Text} (mem : d ∈ ds) :
    d.length ≤ (Text.join separator ds).length := by
  induction ds with
  | nil => cases mem
  | cons first rest ih =>
      cases rest with
      | nil =>
          rw [List.mem_singleton.mp mem, Text.join, List.intercalate_singleton]
      | cons second rest =>
          rw [Text.join, List.intercalate_cons_cons, ← Text.join, List.length_append,
            List.length_append]
          obtain rfl | mem := List.mem_cons.mp mem
          · omega
          · have := ih mem
            omega

/-- The text of a struct is longer than the texts of its field types. -/
theorem length_field_lt {fields : List (FieldName × TypeTerm)} {f : FieldName × TypeTerm}
    (mem : f ∈ fields) : f.2.text.length < (struct fields).text.length := by
  have declared : f.1.text ++ (utf8 " " ++ f.2.text) ∈ declarations fields := by
    rw [declarations_eq_map]
    exact List.mem_map_of_mem mem
  rw [text]
  generalize declarations fields = ds at declared
  have le := length_le_join (utf8 "; ") declared
  cases ds with
  | nil => cases declared
  | cons d rest =>
      show _ < (utf8 "struct \x7b " ++ (Text.join (utf8 "; ") (d :: rest) ++ _)).length
      simp only [List.length_append] at le ⊢
      have keyword : 0 < (utf8 "struct \x7b ").length := by decide
      omega

end Length

section Rendering

variable {render : GoType → UInt32 → Option Text} {depth : UInt32}

theorem renderRef_of_deref? {r : TypeRef GoType} {t : GoType} (known : g.deref? r = some t) :
    renderRef g render depth r = render t depth := by
  rw [renderRef, known]

theorem mapM_renderRef {fields : List (FieldName × TypeTerm)}
    {declared : List (Field (TypeRef GoType))} {start : Nat}
    (denote : DenoteFields g version p start fields declared)
    (shown : ∀ f ∈ fields, ∀ t, Denotes g version p f.2 t → render t depth = some f.2.text) :
    (declared.mapM fun f => (renderRef g render depth f.type).map fun e =>
      f.name ++ utf8 " " ++ e) = some (declarations fields) := by
  induction fields generalizing declared start with
  | nil =>
      cases denote
      rfl
  | cons f fields ih =>
      obtain ⟨first, others⟩ := List.forall_mem_cons.mp shown
      cases denote with
      | @cons _ name type t r _ rest known denotes later =>
          rw [List.mapM_cons, renderRef_of_deref? known, first t denotes, ih later others,
            declarations, ← List.append_assoc]
          rfl

theorem structText_of_nonempty {ds : List Text} (some : ds ≠ []) : structText ds =
    utf8 "struct \x7b " ++ (Text.join (utf8 "; ") ds ++ utf8 " \x7d") := by
  cases ds with
  | nil => exact absurd rfl some
  | cons d rest => rfl

/-- The text of a type, if types with shorter texts are shown by them. -/
theorem Denotes.renderStep {term : TypeTerm} {t : GoType} (h : Denotes g version p term t)
    (shown : ∀ e te depth, e.text.length < term.text.length → Denotes g version p e te →
      render te depth = some e.text) (depth : UInt32) :
    GoType.renderStep g render t depth = some term.text := by
  cases h with
  | basic heads shape =>
      rw [GoType.renderStep, shape]
      rfl
  | @slice e _ te _ heads shape known denotes =>
      have shorter : e.text.length < (TypeTerm.slice e).text.length := by
        rw [text, List.length_append]
        exact Nat.lt_add_of_pos_left (by decide)
      rw [GoType.renderStep, shape]
      dsimp only
      rw [renderRef_of_deref? known, shown e te depth shorter denotes]
      rfl
  | @array n e _ te _ _ _ heads shape length known denotes =>
      have shorter : e.text.length < (TypeTerm.array n e).text.length := by
        rw [text, List.length_append]
        have front : (utf8 "[").length = 1 := rfl
        simp only [List.length_append]
        omega
      rw [GoType.renderStep, shape]
      dsimp only
      by_cases zero : depth = 0
      · rw [if_pos zero, heads.name]
      · rw [if_neg zero, renderRef_of_deref? known, shown e te _ shorter denotes, length]
        simp only [Option.map_some, text, List.append_assoc]
  | @pointer e _ te _ heads shape known denotes =>
      have shorter : e.text.length < (TypeTerm.pointer e).text.length := by
        rw [text, List.length_append]
        exact Nat.lt_add_of_pos_left (by decide)
      rw [GoType.renderStep, shape]
      dsimp only
      rw [known]
      dsimp only
      by_cases zero : depth = 0
      · rw [if_pos zero, denotes.heads.name, text]
      · rw [if_neg zero, shown e te _ shorter denotes]
        rfl
  | @struct fields _ declared heads shape denote =>
      rw [GoType.renderStep, shape]
      dsimp only
      by_cases zero : depth = 0
      · rw [if_pos zero, heads.name]
      · have members := mapM_renderRef denote fun f mem t denotes =>
          shown f.2 t (depth - 1) (length_field_lt mem) denotes
        rw [if_neg zero, members]
        cases denote with
        | nil => rfl
        | cons known denotes later =>
            rw [List.isEmpty_cons, if_neg Bool.false_ne_true, Option.map_some, text, declarations,
              structText_of_nonempty (List.cons_ne_nil _ _)]
            exact congrArg some (List.append_assoc _ _ _)
  | @map k v _ tk tv _ _ _ _ heads shape knownKey denotesKey knownValue denotesValue =>
      have shorter : k.text.length < (TypeTerm.map k v).text.length ∧
          v.text.length < (TypeTerm.map k v).text.length := by
        rw [text, List.length_append, List.length_append, List.length_append]
        have front : (utf8 "map[").length = 4 := rfl
        omega
      rw [GoType.renderStep, shape]
      dsimp only
      rw [renderRef_of_deref? knownKey, shown k tk depth shorter.1 denotesKey,
        renderRef_of_deref? knownValue, shown v tv depth shorter.2 denotesValue]
      simp only [Option.bind_some, Option.map_some, text, List.append_assoc]

/-- The text of a type by steps that are more than the text is long. -/
theorem Denotes.renderWithin {term : TypeTerm} {t : GoType} (h : Denotes g version p term t)
    {n : Nat} (long : term.text.length < n) (depth : UInt32) :
    GoType.renderWithin g n t depth = some term.text := by
  induction n generalizing term t depth with
  | zero => exact absurd long (Nat.not_lt_zero _)
  | succ n ih =>
      refine h.renderStep (fun e te depth shorter denotes => ?_) depth
      exact ih denotes (Nat.lt_of_lt_of_le shorter (Nat.le_of_lt_succ long)) depth

theorem Denotes.render? {term : TypeTerm} {t : GoType} (h : Denotes g version p term t)
    (depth : UInt32) : t.render? g depth = some term.text := by
  refine h.renderWithin ?_ depth
  rw [renderLimit, h.heads.name]
  omega

end Rendering

/-- Showing a type undoes the reading of its text. Over an empty graph the text of a term is read if
neither a length nor the bytes of an array in it, those of the buckets of maps included, are too
many for a word of 64 bits; it is not read if they are, as long as the bytes of one element can be
counted. What is read has the kinds, the lengths and the names of the term, its text is the text of
the term at every depth, and reading that text again gives the same type. -/
theorem parse_text_render? (wide : p = 4 ∨ p = 8) (version : VersionBound) (term : TypeTerm) :
    ((∀ n e, IsPart version (.array n e) term → n < 2 ^ 64 ∧ n * e.stride p < 2 ^ 64) →
      (parse .empty version p term.text).isSome) ∧
    ((∃ n e, IsPart version (.array n e) term ∧
        (2 ^ 64 ≤ n ∨ e.stride p < 2 ^ 64 ∧ 2 ^ 64 ≤ n * e.stride p)) →
      parse .empty version p term.text = none) ∧
    ∀ handle, parse .empty version p term.text = some handle →
      ∃ t, handle = .built t ∧ Denotes .empty version p term t ∧
        ∀ depth, t.render? .empty depth = some term.text ∧
          parse .empty version p (t.render .empty depth) = some handle := by
  refine ⟨fun small => ?_, ?_, fun handle parsed => ?_⟩
  · have countable : Countable version p term := by
      intro n e part
      obtain ⟨short, bytes⟩ := small n e part
      exact ⟨short, Nat.lt_of_le_of_lt (Nat.mul_le_mul_left n (Nat.mod_le _ _)) bytes⟩
    obtain ⟨handle, t, parsed, _⟩ := isRead wide term (faithful_empty term) countable
    exact Option.isSome_of_eq_some parsed
  · rintro ⟨n, e, part, large⟩
    by_contra read
    have some := Option.isSome_iff_ne_none.mpr read
    obtain ⟨short, bytes⟩ := countable_of_parse wide term some n e part
    obtain long | ⟨counted, many⟩ := large
    · exact absurd short (Nat.not_lt.mpr long)
    · rw [Nat.mod_eq_of_lt counted] at bytes
      exact absurd bytes (Nat.not_lt.mpr many)
  · have countable := countable_of_parse wide term (Option.isSome_of_eq_some parsed)
    obtain ⟨_, t, again, known, denotes⟩ := isRead wide term (faithful_empty term) countable
    cases parsed.symm.trans again
    cases handle with
    | node address => cases known
    | built b =>
        cases known
        refine ⟨t, rfl, denotes, fun depth => ?_⟩
        have shown := denotes.render? depth
        refine ⟨shown, ?_⟩
        rw [render, shown]
        exact parsed

section Samples

/-- A map whose buckets hold bytes and truth values. -/
def flagMap : TypeTerm := .map (.basic ⟨.int8, by decide⟩) (.basic ⟨.bool, by decide⟩)

theorem parse_text_render?_flagMap : (8 = (4 : UInt32) ∨ 8 = (8 : UInt32)) ∧
    flagMap.text = utf8 "map[int8]bool" ∧
    ∃ t, parse .empty ⟨20, 20⟩ 8 (utf8 "map[int8]bool") = some (.built t) ∧
      t.render? .empty 0 = some (utf8 "map[int8]bool") := by
  obtain ⟨accepted, _, shown⟩ := parse_text_render? (.inr rfl) ⟨20, 20⟩ flagMap
  have small : ∀ n e, IsPart ⟨20, 20⟩ (.array n e) flagMap →
      n < 2 ^ 64 ∧ n * e.stride 8 < 2 ^ 64 := fun n e part => small_of_map_basic (.inr rfl) part
  obtain ⟨handle, parsed⟩ := Option.isSome_iff_exists.mp (accepted small)
  obtain ⟨t, rfl, _, again⟩ := shown handle parsed
  exact ⟨.inr rfl, rfl, t, parsed, (again 0).1⟩

/-- An array without bytes whose length is no word of 64 bits. -/
def longArray : TypeTerm := .array (2 ^ 64) (.struct [])

/-- An array whose length is no word of 64 bits is not read, though none of its sizes is too
large. -/
theorem parse_longArray : longArray.text = utf8 "[18446744073709551616]struct \x7b\x7d" ∧
    (∀ n e, IsPart ⟨20, 20⟩ (.array n e) longArray → n * e.stride 8 ≤ 2 ^ 64 - 1) ∧
    parse .empty ⟨20, 20⟩ 8 longArray.text = none := by
  refine ⟨?_, ?_, ?_⟩
  · have digits : Text.digits 10 (2 ^ 64) =
        [1, 8, 4, 4, 6, 7, 4, 4, 0, 7, 3, 7, 0, 9, 5, 5, 1, 6, 1, 6] := by simp [Text.digits]
    rw [longArray, text, Text.decimal, Text.ofNat, digits]
    rfl
  · intro n e part
    cases part with
    | self => decide
    | array part =>
        cases part with
        | field mem _ => cases mem
  · by_contra read
    have some := Option.isSome_iff_ne_none.mpr read
    exact absurd (countable_of_parse (.inr rfl) longArray some _ _ .self).1 (Nat.lt_irrefl _)

end Samples

end TypeTerm

end GoInspect
