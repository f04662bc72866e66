import GoInspect.Proofs.Text.Number
import GoInspect.Proofs.Utf8.Locality
import GoInspect.Text.Escape
import Mathlib.Algebra.Group.Nat.Even
import Mathlib.Data.List.Induction

/-!
# Escaped text is safe and loses nothing

A character is shown in one of three ways: as it is, by a letter behind a backslash, or by its
number in as many digits as the letter behind the backslash says. All of them consist of characters
that print. The letter tells where the form ends, so that the characters can be read back. At both
ends of a form every backslash has its letter, and double quotes only stand where a backslash waits
for one.
-/

namespace GoInspect

namespace CodePoint

open Utf8 (WellFormed)

/-- The letters of the characters that have one. -/
def letters : List (CodePoint × UInt8) := [(10, 110), (13, 114), (9, 116), (92, 92), (34, 34)]

/-- The letters of numbers and how many digits follow them. -/
def widths : List (UInt8 × Nat) := [(120, 2), (117, 4), (85, 8)]

/-- The ways in which a character is shown. -/
inductive Shown (quotes : Bool) (c : CodePoint) : Text → Prop where
  | plain : c.isPrintable = true ∨ c = replacement → c ≠ 92 → (quotes = true → c ≠ 34) →
      Shown quotes c c.encode
  | letter {l : UInt8} : (c, l) ∈ letters → Shown quotes c [92, l]
  | number {l : UInt8} {width : Nat} : (l, width) ∈ widths → c.toNat < 16 ^ width →
      Shown quotes c (92 :: l :: Text.paddedHex width c.toNat)

variable {quotes : Bool} {c : CodePoint} {t : Text}

theorem shown_escaped (quotes : Bool) (c : CodePoint) : Shown quotes c (c.escaped quotes) := by
  rw [escaped]
  by_cases feed : c = 10
  · rw [if_pos feed, feed]
    exact .letter (by decide)
  by_cases carriage : c = 13
  · rw [if_neg feed, if_pos carriage, carriage]
    exact .letter (by decide)
  by_cases tab : c = 9
  · rw [if_neg feed, if_neg carriage, if_pos tab, tab]
    exact .letter (by decide)
  by_cases backslash : c = 92
  · rw [if_neg feed, if_neg carriage, if_neg tab, if_pos backslash, backslash]
    exact .letter (by decide)
  rw [if_neg feed, if_neg carriage, if_neg tab, if_neg backslash]
  by_cases quote : c = 34
  · subst quote
    cases quotes with
    | true => exact .letter (by decide)
    | false => exact .plain (by decide) (by decide) (fun asked => nomatch asked)
  rw [if_neg quote]
  by_cases visible : (c.isPrintable || c == replacement) = true
  · rw [if_pos visible]
    rw [Bool.or_eq_true, beq_iff_eq] at visible
    exact .plain visible backslash fun _ => quote
  rw [if_neg visible]
  split
  · next small => exact .number (l := 120) (by decide) (UInt32.lt_iff_toNat_lt.mp small)
  · split
    · next small => exact .number (l := 117) (by decide) (UInt32.lt_iff_toNat_lt.mp small)
    · exact .number (l := 85) (by decide) c.toNat_lt

theorem forall_letters {P : CodePoint × UInt8 → Prop} : (∀ e ∈ letters, P e) ↔
    P (10, 110) ∧ P (13, 114) ∧ P (9, 116) ∧ P (92, 92) ∧ P (34, 34) := by
  simp [letters]

theorem forall_widths {P : UInt8 × Nat → Prop} : (∀ e ∈ widths, P e) ↔
    P (120, 2) ∧ P (117, 4) ∧ P (85, 8) := by
  simp [widths]

theorem letter_ascii {l : UInt8} (listed : (c, l) ∈ letters) :
    ∀ b ∈ [92, l], b < 0x80 ∧ isPrintable b.toUInt32 = true := by
  have letter : ∀ e ∈ letters, e.2 < 0x80 ∧ isPrintable e.2.toUInt32 = true :=
    forall_letters.mpr (by decide)
  exact List.forall_mem_cons.mpr ⟨by decide, List.forall_mem_singleton.mpr (letter _ listed)⟩

theorem number_ascii {l : UInt8} {width : Nat} (listed : (l, width) ∈ widths) (n : Nat) :
    ∀ b ∈ 92 :: l :: Text.paddedHex width n, b < 0x80 ∧ isPrintable b.toUInt32 = true := by
  have letter : ∀ e ∈ widths, e.1 < 0x80 ∧ isPrintable e.1.toUInt32 = true :=
    forall_widths.mpr (by decide)
  refine List.forall_mem_cons.mpr ⟨by decide, List.forall_mem_cons.mpr ⟨letter _ listed, ?_⟩⟩
  exact Text.forall_paddedHex (by decide) width n

theorem length_number {l : UInt8} {width : Nat} (listed : (l, width) ∈ widths)
    (fits : c.toNat < 16 ^ width) : (Text.paddedHex width c.toNat).length = width := by
  have some : ∀ e ∈ widths, 0 < e.2 := forall_widths.mpr (by decide)
  exact Text.length_paddedHex (some _ listed) fits

/-- A form other than the character itself is ASCII text that prints. -/
theorem Shown.ascii (h : Shown quotes c t) :
    t = c.encode ∧ (c.isPrintable = true ∨ c = replacement) ∨
      ∀ b ∈ t, b < 0x80 ∧ isPrintable b.toUInt32 = true := by
  cases h with
  | plain visible _ _ => exact .inl ⟨rfl, visible⟩
  | letter listed => exact .inr (letter_ascii listed)
  | number listed _ => exact .inr (number_ascii listed _)

theorem Shown.wellFormed (h : Shown quotes c t) (scalar : c.isScalar = true) : WellFormed t := by
  rcases h.ascii with ⟨rfl, _⟩ | short
  · exact ⟨[c], List.forall_mem_singleton.mpr scalar, List.append_nil _⟩
  · exact Utf8.wellFormed_ascii fun b mem => (short b mem).1

theorem Shown.prints (h : Shown quotes c t) (scalar : c.isScalar = true) :
    ∀ d ∈ Utf8.decode t, d.isPrintable = true ∨ d = replacement := by
  rcases h.ascii with ⟨rfl, visible⟩ | short
  · rw [Utf8.decode_encode scalar]
    exact List.forall_mem_singleton.mpr visible
  · rw [Utf8.decode_ascii fun b mem => (short b mem).1]
    exact List.forall_mem_map.mpr fun b mem => .inl (short b mem).2

section Reading

def ofDigits (ds : List CodePoint) : CodePoint :=
  .ofNat ((Text.digitsValue? 16 (ds.map UInt32.toUInt8)).getD 0)

/-- The characters that were shown, read back from what is shown. -/
def unescaped : List CodePoint → List CodePoint
  | [] => []
  | [c] => [c]
  | c :: l :: rest =>
    if c = 92 then
      match letters.find? (·.2.toUInt32 == l), widths.find? (·.1.toUInt32 == l) with
      | some (original, _), _ => original :: unescaped rest
      | none, some (_, width) => ofDigits (rest.take width) :: unescaped (rest.drop width)
      | none, none => c :: unescaped (l :: rest)
    else c :: unescaped (l :: rest)
termination_by cs => cs.length
decreasing_by all_goals simp only [List.length_cons, List.length_drop]; omega

theorem unescaped_cons_of_ne (plain : c ≠ 92) (rest : List CodePoint) :
    unescaped (c :: rest) = c :: unescaped rest := by
  cases rest with
  | nil => rw [unescaped, unescaped]
  | cons l rest => rw [unescaped, if_neg plain]

theorem unescaped_letter {l : UInt8} (listed : (c, l) ∈ letters) (rest : List CodePoint) :
    unescaped (92 :: l.toUInt32 :: rest) = c :: unescaped rest := by
  have found : ∀ e ∈ letters, letters.find? (·.2.toUInt32 == e.2.toUInt32) = some e :=
    forall_letters.mpr (by decide)
  rw [unescaped, if_pos rfl, found _ listed]

theorem unescaped_number {l : UInt8} {width : Nat} (listed : (l, width) ∈ widths)
    {ds : List CodePoint} (length : ds.length = width) (rest : List CodePoint) :
    unescaped (92 :: l.toUInt32 :: (ds ++ rest)) = ofDigits ds :: unescaped rest := by
  have found : ∀ e ∈ widths, letters.find? (·.2.toUInt32 == e.1.toUInt32) = none ∧
      widths.find? (·.1.toUInt32 == e.1.toUInt32) = some e :=
    forall_widths.mpr (by decide)
  obtain ⟨noLetter, here⟩ := found _ listed
  rw [unescaped, if_pos rfl, noLetter, here]
  simp only [← length, List.take_left, List.drop_left]

theorem ofDigits_paddedHex (width : Nat) (c : CodePoint) :
    ofDigits ((Text.paddedHex width c.toNat).map UInt8.toUInt32) = c := by
  have bytes : (UInt32.toUInt8 ∘ UInt8.toUInt32) = id := funext UInt8.toUInt8_toUInt32
  rw [ofDigits, List.map_map, bytes, List.map_id, Text.digitsValue?_paddedHex, Option.getD_some,
    UInt32.ofNat_toNat]

/-- Every form is read back, and no further. -/
theorem Shown.unescaped (h : Shown quotes c t) (scalar : c.isScalar = true)
    (rest : List CodePoint) : unescaped (Utf8.decode t ++ rest) = c :: unescaped rest := by
  cases h with
  | plain _ other _ =>
      rw [Utf8.decode_encode scalar]
      exact unescaped_cons_of_ne other rest
  | letter listed =>
      rw [Utf8.decode_ascii fun b mem => (letter_ascii listed b mem).1]
      exact unescaped_letter listed rest
  | number listed fits =>
      have length := (List.length_map UInt8.toUInt32).trans (length_number listed fits)
      rw [Utf8.decode_ascii fun b mem => (number_ascii listed _ b mem).1]
      exact (unescaped_number listed length rest).trans (by rw [ofDigits_paddedHex])

end Reading

end CodePoint

namespace Text

open CodePoint (Shown shown_escaped unescaped replacement)
open Utf8 (decode WellFormed IsUtf8)

variable {quotes : Bool} {t : Text} {cs : List CodePoint}

theorem wellFormed_flatMap_escaped (scalars : ∀ c ∈ cs, c.isScalar = true) :
    WellFormed (cs.flatMap (CodePoint.escaped quotes)) := by
  induction cs with
  | nil => exact ⟨[], List.forall_mem_nil _, rfl⟩
  | cons c rest ih =>
      obtain ⟨first, others⟩ := List.forall_mem_cons.mp scalars
      exact ((shown_escaped quotes c).wellFormed first).append (ih others)

/-- What is shown, one character after another. -/
theorem decode_flatMap_escaped (scalars : ∀ c ∈ cs, c.isScalar = true) :
    decode (cs.flatMap (CodePoint.escaped quotes)) =
      cs.flatMap fun c => decode (c.escaped quotes) := by
  induction cs with
  | nil => rw [List.flatMap_nil, decode, List.flatMap_nil]
  | cons c rest ih =>
      obtain ⟨first, others⟩ := List.forall_mem_cons.mp scalars
      rw [List.flatMap_cons, List.flatMap_cons,
        ((shown_escaped quotes c).wellFormed first).decode_append, ih others]

theorem decode_escaped (quotes : Bool) (t : Text) : decode (escaped quotes t) =
    (decode t).flatMap fun c => decode (c.escaped quotes) :=
  decode_flatMap_escaped Utf8.isScalar_of_mem_decode

theorem unescaped_flatMap (scalars : ∀ c ∈ cs, c.isScalar = true) :
    unescaped (cs.flatMap fun c => decode (c.escaped quotes)) = cs := by
  induction cs with
  | nil => rw [List.flatMap_nil, unescaped]
  | cons c rest ih =>
      obtain ⟨first, others⟩ := List.forall_mem_cons.mp scalars
      rw [List.flatMap_cons, (shown_escaped quotes c).unescaped first, ih others]

/-- The characters of a text can be read off what is shown of it. -/
theorem unescaped_escaped (quotes : Bool) (t : Text) :
    unescaped (decode (escaped quotes t)) = decode t := by
  rw [decode_escaped, unescaped_flatMap Utf8.isScalar_of_mem_decode]

theorem prints_escaped (quotes : Bool) (t : Text) :
    ∀ c ∈ decode (escaped quotes t), c.isPrintable = true ∨ c = replacement := by
  rw [decode_escaped, List.forall_mem_flatMap]
  intro c mem
  exact (shown_escaped quotes c).prints (Utf8.isScalar_of_mem_decode c mem)

theorem escaped_eq_iff {u : Text} : escaped quotes t = escaped quotes u ↔ decode t = decode u := by
  constructor
  · intro same
    rw [← unescaped_escaped quotes t, same, unescaped_escaped]
  · exact congrArg (List.flatMap (CodePoint.escaped quotes))

section Quotes

/-- The byte is a backslash that waits for another byte, given whether one before it does. -/
def leavesOpen (pending : Bool) (b : UInt8) : Bool := b == 92 && !pending

/-- The text ends with a backslash that waits for another byte. -/
def endsOpen (t : Text) : Bool := t.foldl leavesOpen false

/-- The number of backslashes at the end of the text. -/
def endingBackslashes (t : Text) : Nat := (t.reverse.takeWhile (· == 92)).length

theorem endingBackslashes_append (t : Text) (b : UInt8) :
    endingBackslashes (t ++ [b]) = if b = 92 then endingBackslashes t + 1 else 0 := by
  rw [endingBackslashes, List.reverse_append, List.reverse_singleton, List.singleton_append,
    List.takeWhile_cons, endingBackslashes]
  by_cases backslash : b = 92 <;> simp [backslash]

theorem endsOpen_iff : endsOpen t = true ↔ Odd (endingBackslashes t) := by
  induction t using List.reverseRecOn with
  | nil => exact iff_of_false Bool.false_ne_true (by decide)
  | append_singleton t b ih =>
      have step : endsOpen (t ++ [b]) = leavesOpen (endsOpen t) b := List.foldl_append
      rw [step, leavesOpen, endingBackslashes_append]
      by_cases backslash : b = 92
      · rw [if_pos backslash, Nat.odd_add_one, ← ih, backslash]
        simp
      · rw [if_neg backslash, beq_eq_false_iff_ne.mpr backslash]
        exact iff_of_false Bool.false_ne_true (by decide)

/-- Every double quote stands behind a backslash that waits for it, and none waits at the end. -/
structure Closed (t : Text) : Prop where
  paired : endsOpen t = false
  quoted : ∀ before after, t = before ++ 34 :: after → endsOpen before = true

theorem endsOpen_append {u : Text} (paired : endsOpen t = false) :
    endsOpen (t ++ u) = endsOpen u := by
  rw [endsOpen] at paired
  rw [endsOpen, List.foldl_append, paired, endsOpen]

theorem Closed.append {u : Text} (h : Closed t) (h' : Closed u) : Closed (t ++ u) := by
  refine ⟨(endsOpen_append h.paired).trans h'.paired, ?_⟩
  intro before after same
  obtain ⟨middle, rfl, rest⟩ | ⟨middle, rfl, rest⟩ := List.append_eq_append_iff.mp same
  · rw [endsOpen_append h.paired]
    exact h'.quoted middle after rest
  · cases middle with
    | nil =>
        -- Nothing stands before a quote that the second text begins with.
        exact absurd (h'.quoted [] after rest.symm) Bool.false_ne_true
    | cons b middle =>
        obtain ⟨rfl, _⟩ := List.cons.inj rest
        exact h.quoted before middle rfl

theorem closed_nil : Closed [] :=
  ⟨rfl, fun _ _ none => absurd none (by simp)⟩

theorem closed_singleton {b : UInt8} (noBackslash : b ≠ 92) (noQuote : b ≠ 34) : Closed [b] := by
  constructor
  · show (b == 92 && true) = false
    rw [Bool.and_true, beq_eq_false_iff_ne]
    exact noBackslash
  · intro before after same
    cases before with
    | nil => exact absurd (List.cons.inj same).1 noQuote
    | cons x rest => exact absurd (List.cons.inj same).2.symm (by simp)

/-- Whatever stands behind a single backslash, the two are a pair. -/
theorem closed_pair (b : UInt8) : Closed [92, b] := by
  constructor
  · exact Bool.and_false _
  · intro before after same
    match before with
    | [] => exact absurd (List.cons.inj same).1 (by decide)
    | [x] =>
        obtain ⟨rfl, _⟩ := List.cons.inj same
        rfl
    | x :: y :: rest => exact absurd (List.cons.inj (List.cons.inj same).2).2.symm (by simp)

/-- Text without either character. -/
theorem closed_of_forall (plain : ∀ b ∈ t, b ≠ 92 ∧ b ≠ 34) : Closed t := by
  induction t with
  | nil => exact closed_nil
  | cons b rest ih =>
      obtain ⟨⟨noBackslash, noQuote⟩, others⟩ := List.forall_mem_cons.mp plain
      exact (closed_singleton noBackslash noQuote).append (ih others)

theorem closed_shown {c : CodePoint} (h : Shown true c t) (scalar : c.isScalar = true) :
    Closed t := by
  cases h with
  | plain _ noBackslash noQuote =>
      refine closed_of_forall fun b mem => ⟨?_, ?_⟩
      · rintro rfl
        exact noBackslash (Utf8.eq_of_mem_encode scalar (by decide) mem)
      · rintro rfl
        exact noQuote rfl (Utf8.eq_of_mem_encode scalar (by decide) mem)
  | letter _ => exact closed_pair _
  | number _ _ =>
      exact (closed_pair _).append (closed_of_forall (forall_paddedHex (by decide) _ _))

theorem closed_flatMap_escaped (scalars : ∀ c ∈ cs, c.isScalar = true) :
    Closed (cs.flatMap (CodePoint.escaped true)) := by
  induction cs with
  | nil => exact closed_nil
  | cons c rest ih =>
      obtain ⟨first, others⟩ := List.forall_mem_cons.mp scalars
      rw [List.flatMap_cons]
      exact (closed_shown (shown_escaped true c) first).append (ih others)

end Quotes

/-- Escaped text is well formed and consists of characters that print and replacements. It is the
same for two texts exactly if they have the same characters. Where double quotes are escaped, each
of them stands behind an odd number of backslashes. -/
theorem escaped_faithful :
    (∀ quotes t, IsUtf8 (escaped quotes t) ∧
      ∀ c ∈ decode (escaped quotes t), c.isPrintable = true ∨ c = replacement) ∧
    (∀ quotes t u, escaped quotes t = escaped quotes u ↔ decode t = decode u) ∧
    ∀ t before after, escaped true t = before ++ 34 :: after → Odd (endingBackslashes before) := by
  refine ⟨fun quotes t => ⟨?_, prints_escaped quotes t⟩, fun _ _ _ => escaped_eq_iff, ?_⟩
  · exact Utf8.wellFormed_iff.mp (wellFormed_flatMap_escaped Utf8.isScalar_of_mem_decode)
  · intro t before after same
    have closed := closed_flatMap_escaped (Utf8.isScalar_of_mem_decode (t := t))
    exact endsOpen_iff.mp (closed.quoted before after same)

/-- A backslash and a double quote, which look like an escaped quote. -/
theorem escaped_faithful_imitation :
    escaped true [92, 34] = [92, 92, 92] ++ 34 :: [] ∧ Odd (endingBackslashes [92, 92, 92]) ∧
      escaped true [92, 34] ≠ escaped true [34] := by
  have shown : escaped true [92, 34] = [92, 92, 92] ++ 34 :: [] := by decide +kernel
  refine ⟨shown, escaped_faithful.2.2 _ _ _ shown, ?_⟩
  rw [ne_eq, escaped_faithful.2.1]
  decide +kernel

end Text

end GoInspect
