import GoInspect.Text
import Mathlib.Data.List.Basic

/-!
# Cuts of text

What trimming and cutting give where the text is known. A text is solid if it has no blanks at its
ends, whatever stands between them.
-/

namespace GoInspect

namespace Text

variable {s t u : Text}

/-- There are no blanks at the ends, and something in between. -/
def Solid (t : Text) : Prop :=
  t.head?.any (fun b => !isBlank b) ∧ t.getLast?.any (fun b => !isBlank b)

instance (t : Text) : Decidable (Solid t) := inferInstanceAs (Decidable (_ ∧ _))

theorem Solid.ne_nil (h : Solid t) : t ≠ [] := by
  rintro rfl
  exact nomatch h.1

/-- Only the ends matter. -/
theorem solid_around (front : s.head?.any fun b => !isBlank b)
    (back : t.getLast?.any fun b => !isBlank b) (u : Text) : Solid (s ++ (u ++ t)) := by
  have some : s ≠ [] := by
    rintro rfl
    exact nomatch front
  have some' : t ≠ [] := by
    rintro rfl
    exact nomatch back
  constructor
  · rwa [List.head?_append_of_ne_nil s some]
  · rwa [List.getLast?_append_of_ne_nil s (List.append_ne_nil_of_right_ne_nil u some'),
      List.getLast?_append_of_ne_nil u some']

theorem solid_of_forall (some : t ≠ []) (plain : ∀ b ∈ t, isBlank b = false) : Solid t := by
  constructor
  · rw [List.head?_eq_some_head some, Option.any_some, plain _ (List.head_mem some)]
    rfl
  · rw [List.getLast?_eq_some_getLast some, Option.any_some, plain _ (List.getLast_mem some)]
    rfl

theorem trimStart_of_head (h : t.head?.any fun b => !isBlank b) : t.trimStart = t := by
  cases t with
  | nil => rfl
  | cons b rest =>
      rw [trimStart, List.dropWhile_cons_of_neg]
      simpa using h

theorem trimEnd_of_getLast (h : t.getLast?.any fun b => !isBlank b) : t.trimEnd = t := by
  rw [← List.head?_reverse] at h
  rw [trimEnd]
  have same := trimStart_of_head h
  rw [trimStart] at same
  rw [same, List.reverse_reverse]

theorem Solid.trim (h : Solid t) : t.trim = t := by
  rw [Text.trim, trimStart_of_head h.1, trimEnd_of_getLast h.2]

/-- Blanks that stand before and behind a solid text are trimmed off. -/
theorem Solid.trim_between (h : Solid t) {front back : Text} (blankFront : front.all isBlank)
    (blankBack : back.all isBlank) : Text.trim (front ++ (t ++ back)) = t := by
  have start : (front ++ (t ++ back)).trimStart = t ++ back := by
    rw [trimStart, List.dropWhile_append_of_pos (List.all_eq_true.mp blankFront)]
    apply trimStart_of_head
    rw [List.head?_append_of_ne_nil t h.ne_nil]
    exact h.1
  have last : (t ++ back).trimEnd = t := by
    rw [trimEnd, List.reverse_append, List.dropWhile_append_of_pos]
    · exact trimEnd_of_getLast h.2
    · intro b mem
      exact List.all_eq_true.mp blankBack b (List.mem_reverse.mp mem)
  rw [Text.trim, start, last]

theorem cut?_append {separator : UInt8} (free : separator ∉ t) (u : Text) :
    cut? separator (t ++ separator :: u) = some (t, u) := by
  induction t with
  | nil => exact if_pos rfl
  | cons b rest ih =>
      obtain ⟨other, free⟩ := not_or.mp (mt List.mem_cons.mpr free)
      rw [List.cons_append, cut?, if_neg (Ne.symm other), ih free]
      rfl

/-- A text is cut at the first separator. -/
theorem cut?_eq_some_iff {separator : UInt8} :
    cut? separator s = some (t, u) ↔ separator ∉ t ∧ s = t ++ separator :: u := by
  constructor
  · intro parts
    induction s generalizing t with
    | nil => cases parts
    | cons b rest ih =>
        rw [cut?] at parts
        split at parts
        · next here =>
          cases parts
          exact ⟨List.not_mem_nil, congrArg (· :: u) here⟩
        · next other =>
          obtain ⟨⟨before, after⟩, parts', same⟩ := Option.map_eq_some_iff.mp parts
          cases same
          obtain ⟨free, rfl⟩ := ih parts'
          refine ⟨?_, rfl⟩
          rw [List.mem_cons, not_or]
          exact ⟨Ne.symm other, free⟩
  · rintro ⟨free, rfl⟩
    exact cut?_append free u

theorem isPrefixOf_append (s t : Text) : s.isPrefixOf (s ++ t) :=
  List.isPrefixOf_iff_prefix.mpr (List.prefix_append s t)

theorem isPrefixOf_of_append (h : (s ++ t).isPrefixOf u) : s.isPrefixOf u :=
  List.isPrefixOf_iff_prefix.mpr
    ((List.prefix_append s t).trans (List.isPrefixOf_iff_prefix.mp h))

end Text

end GoInspect
