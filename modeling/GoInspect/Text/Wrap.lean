import GoInspect.Text

/-!
# Lines of bounded width

Text is broken at line feeds, else at the last space that keeps the line within the width, else in
the middle of a word. Spaces at a break that no line feed made are dropped.
-/

namespace GoInspect

namespace Text

/-- The position of the last space among the first `n + 1` bytes, if it is not the first byte. -/
def breakBefore? (n : Nat) (t : Text) : Option Nat :=
  let back := (t.take (n + 1)).reverse.dropWhile (· != 32)
  if 1 < back.length then some (back.length - 1) else none

/-- Where a line without a line feed ends when the text is longer than `width`. -/
def breakAt (width : Nat) (t : Text) : Nat := (breakBefore? width t).getD width

theorem breakAt_pos {width : Nat} (h : 0 < width) (t : Text) : 0 < breakAt width t := by
  unfold breakAt breakBefore?
  grind

/-- The lines of a text, each of at most `width` bytes. Without any width the text is one line. -/
def wrap (width : Nat) (t : Text) : List Text :=
  if hw : width = 0 then [t]
  else if ht : t = [] then []
  else
    let line := t.takeWhile (· != 10)
    if line.length < t.length ∧ line.length ≤ width then
      line :: wrap width (t.drop (line.length + 1))
    else if t.length ≤ width then [t]
    else
      let stop := breakAt width t
      t.take stop :: wrap width ((t.drop stop).dropWhile (· == 32))
termination_by t.length
decreasing_by
  · have := List.length_pos_iff.mpr ht
    simp only [List.length_drop]
    omega
  · have := List.length_pos_iff.mpr ht
    have hb := breakAt_pos (Nat.pos_of_ne_zero hw) t
    have hd := (List.dropWhile_sublist (l := t.drop (breakAt width t)) (· == 32)).length_le
    simp only [List.length_drop] at hd
    show ((t.drop (breakAt width t)).dropWhile (· == 32)).length < t.length
    omega

end Text

end GoInspect
