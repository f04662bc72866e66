import GoInspect.Text.Wrap
import Mathlib.Data.List.TakeWhile

/-!
# Wrapped text

Wrapping cuts one line after another off a text. A line ends at a line feed that the width reaches,
else at a space, else in the middle of a word. Whichever it is, the line has no more bytes than the
width and no line feed in it, and nothing is dropped behind it but that line feed, or spaces.
-/

namespace GoInspect

namespace Text

variable {width : Nat} {t line : Text} {lines : List Text}

/-- The line has no more bytes than the width, and no line feed in it. -/
structure FitsLine (width : Nat) (line : Text) : Prop where
  short : line.length ≤ width
  whole : 10 ∉ line

/-- The lines follow each other in the text, and behind each of them are only the separators that
end it. -/
inductive Wrapped (width : Nat) : Text → List Text → Prop where
  | nil : Wrapped width [] []
  /-- The text ends with the line. -/
  | last {line : Text} (fits : FitsLine width line) (some : line ≠ []) : Wrapped width line [line]
  /-- A line feed ends the line, which may be empty. -/
  | feed {line t : Text} {lines : List Text} (fits : FitsLine width line)
      (rest : Wrapped width t lines) : Wrapped width (line ++ 10 :: t) (line :: lines)
  /-- The line is full. The spaces behind it are dropped, if there are any. -/
  | full {line spaces t : Text} {lines : List Text} (fits : FitsLine width line) (some : line ≠ [])
      (blank : ∀ b ∈ spaces, b = 32) (rest : Wrapped width t lines) :
      Wrapped width (line ++ (spaces ++ t)) (line :: lines)

theorem breakAt_le (width : Nat) (t : Text) : breakAt width t ≤ width := by
  have back := (List.dropWhile_sublist (l := (t.take (width + 1)).reverse) (· != 32)).length_le
  rw [List.length_reverse, List.length_take] at back
  rw [breakAt, breakBefore?]
  split
  · rw [Option.getD_some]
    omega
  · exact Nat.le_refl width

section Lines

/-- The text before the first line feed, that line feed, and the text behind it. -/
theorem firstLine_append (more : (t.takeWhile (· != 10)).length < t.length) :
    t.takeWhile (· != 10) ++ 10 :: t.drop ((t.takeWhile (· != 10)).length + 1) = t := by
  induction t with
  | nil => cases more
  | cons b rest ih =>
      by_cases feed : b = 10
      · subst feed
        rfl
      · rw [List.takeWhile_cons_of_pos (p := (· != 10)) (bne_iff_ne.mpr feed)] at more ⊢
        rw [List.length_cons, List.cons_append, List.drop_succ_cons,
          ih (Nat.lt_of_succ_lt_succ more)]

theorem feed_not_mem_takeWhile (t : Text) : 10 ∉ t.takeWhile (· != 10) := fun mem =>
  bne_iff_ne.mp (List.mem_takeWhile_imp (p := (· != 10)) mem) rfl

/-- There is no line feed in a beginning of the first line. -/
theorem feed_not_mem_take {n : Nat} (le : n ≤ (t.takeWhile (· != 10)).length) : 10 ∉ t.take n := by
  have first := List.takeWhile_append_dropWhile (p := (· != 10)) (l := t)
  rw [← first, List.take_append_of_le_length le]
  exact fun mem => feed_not_mem_takeWhile t (List.mem_of_mem_take mem)

end Lines

theorem wrapped_wrap (positive : 0 < width) (t : Text) : Wrapped width t (wrap width t) := by
  fun_induction wrap width t with
  | case1 _ none => exact absurd none (Nat.ne_of_gt positive)
  | case2 => exact .nil
  | case3 t _ _ line feed ih =>
      conv => arg 2; rw [← firstLine_append feed.1]
      exact .feed ⟨feed.2, feed_not_mem_takeWhile t⟩ ih
  | case4 t _ some line noFeed short =>
      have all : t.length ≤ line.length := by
        have le : line.length ≤ t.length := (List.takeWhile_sublist _).length_le
        omega
      have whole : 10 ∉ t := List.take_length (l := t) ▸ feed_not_mem_take all
      exact .last ⟨short, whole⟩ some
  | case5 t _ some line noFeed long stop ih =>
      have near : stop ≤ width := breakAt_le width t
      have inside : stop ≤ line.length := by omega
      have spaces : ∀ b ∈ (t.drop stop).takeWhile (· == 32), b = 32 := fun b mem =>
        eq_of_beq (List.mem_takeWhile_imp (p := (· == 32)) mem)
      have parts : t = t.take stop ++
          ((t.drop stop).takeWhile (· == 32) ++ (t.drop stop).dropWhile (· == 32)) := by
        rw [List.takeWhile_append_dropWhile, List.take_append_drop]
      conv => arg 2; rw [parts]
      refine .full ⟨?_, feed_not_mem_take inside⟩ ?_ spaces ih
      · rw [List.length_take]
        exact (Nat.min_le_left _ _).trans near
      · rw [Ne, List.take_eq_nil_iff, not_or]
        exact ⟨Nat.ne_of_gt (breakAt_pos positive t), some⟩

namespace Wrapped

theorem fitsLine (h : Wrapped width t lines) : ∀ line ∈ lines, FitsLine width line := by
  induction h with
  | nil => exact List.forall_mem_nil _
  | last fits _ => exact List.forall_mem_singleton.mpr fits
  | feed fits _ ih => exact List.forall_mem_cons.mpr ⟨fits, ih⟩
  | full fits _ _ _ ih => exact List.forall_mem_cons.mpr ⟨fits, ih⟩

/-- Every line takes at least one byte of the text. -/
theorem length_le (h : Wrapped width t lines) : lines.length ≤ t.length := by
  induction h with
  | nil => exact Nat.le_refl 0
  | last _ some => exact List.length_pos_iff.mpr some
  | feed _ _ ih =>
      rw [List.length_cons, List.length_append, List.length_cons]
      omega
  | full _ some _ _ ih =>
      have := List.length_pos_iff.mpr some
      rw [List.length_cons, List.length_append, List.length_append]
      omega

/-- Nothing but separators is dropped. -/
theorem filter_flatten (h : Wrapped width t lines) :
    lines.flatten.filter (fun b => b != 32 && b != 10) =
      t.filter (fun b => b != 32 && b != 10) := by
  induction h with
  | nil => rfl
  | last => rw [List.flatten_singleton]
  | feed _ _ ih =>
      rw [List.flatten_cons, List.filter_append, List.filter_append, ih]
      rfl
  | @full _ spaces _ _ _ _ blank _ ih =>
      have dropped : ∀ b ∈ spaces, ¬(b != 32 && b != 10) = true := by
        intro b mem
        rw [blank b mem]
        decide
      rw [List.flatten_cons, List.filter_append, List.filter_append, List.filter_append, ih,
        List.filter_eq_nil_iff.mpr dropped, List.nil_append]

end Wrapped

/-- A text wraps into no more lines than it has bytes. No line is longer than the width or has a
line feed in it, and all bytes other than spaces and line feeds are in the lines, in their order. -/
theorem wrap_fits_keeps (positive : 0 < width) (t : Text) :
    (wrap width t).length ≤ t.length ∧
      (∀ line ∈ wrap width t, line.length ≤ width ∧ 10 ∉ line) ∧
      (wrap width t).flatten.filter (fun b => b != 32 && b != 10) =
        t.filter (fun b => b != 32 && b != 10) := by
  have wrapped := wrapped_wrap positive t
  refine ⟨wrapped.length_le, fun line mem => ?_, wrapped.filter_flatten⟩
  have fits := wrapped.fitsLine line mem
  exact ⟨fits.short, fits.whole⟩

/-- A line feed exactly at the width, more spaces than the width, and a word that is longer than
it. -/
theorem wrap_fits_keeps_narrow :
    0 < 4 ∧ (wrap 4 (utf8 "ab c\n      defghij k")).length ≤ 20 ∧
      (∀ line ∈ wrap 4 (utf8 "ab c\n      defghij k"), line.length ≤ 4 ∧ 10 ∉ line) ∧
      (wrap 4 (utf8 "ab c\n      defghij k")).flatten.filter (fun b => b != 32 && b != 10) =
        utf8 "abcdefghijk" := by
  have wide : 0 < 4 := by decide
  obtain ⟨few, fit, kept⟩ := wrap_fits_keeps wide (utf8 "ab c\n      defghij k")
  exact ⟨wide, few, fit, kept.trans (by decide)⟩

example : wrap 4 (utf8 "ab c\n      defghij k") =
    [utf8 "ab c", utf8 "    ", utf8 "defg", utf8 "hij", utf8 "k"] := by
  cbv

end Text

end GoInspect
