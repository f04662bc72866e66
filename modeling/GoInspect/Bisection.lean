/-!
# Bisection

The position where a test turns true, for a test that stays true once it is. Where the test has no
such position the result is still fixed by the order in which positions are tried.
-/

namespace GoInspect

/-- Halves the `count` positions from `first` on: to those before the middle where the test holds in
the middle, to those after it where it does not. The result lies between `first` and
`first + count`. -/
def bisect (test : Nat → Bool) (first count : Nat) : Nat :=
  if _h : count = 0 then first
  else if test (first + count / 2) then bisect test first (count / 2)
  else bisect test (first + count / 2 + 1) (count - count / 2 - 1)
termination_by count
decreasing_by all_goals omega

/-- The last of the elements before the position where `above` turns true. -/
def lastBefore? {α : Type} (above : α → Bool) (xs : Array α) : Option α :=
  match bisect (fun i => (xs[i]?).any above) 0 xs.size with
  | 0 => none
  | i + 1 => xs[i]?

end GoInspect
