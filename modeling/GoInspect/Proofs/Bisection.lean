import GoInspect.Bisection
import Mathlib.Data.List.Basic

/-!
# What bisection finds

Bisection tries positions and nothing else, so that what it finds follows from the outcomes of its
tests, whatever the elements are. Where a test stays true once it is, bisection parts the positions
before it holds from the others, and the last element before it holds is the last one of all for
which it fails.
-/

namespace GoInspect

theorem bisect_congr {test test' : Nat → Bool} {first count : Nat}
    (same : ∀ i < first + count, test i = test' i) :
    bisect test first count = bisect test' first count := by
  fun_induction bisect test first count with
  | case1 first => rw [bisect, dif_pos rfl]
  | case2 first count some holds ih =>
      conv => rhs; rw [bisect, dif_neg some, ← same _ (by omega), if_pos holds]
      exact ih fun i inside => same i (by omega)
  | case3 first count some fails ih =>
      conv => rhs; rw [bisect, dif_neg some, ← same _ (by omega), if_neg fails]
      exact ih fun i inside => same i (by omega)

/-- A test that holds from the start on turns true at the start. -/
theorem bisect_of_forall {test : Nat → Bool} {first count : Nat}
    (holds : ∀ i < first + count, test i = true) : bisect test first count = first := by
  fun_induction bisect test first count with
  | case1 first => rfl
  | case2 first count some _ ih => exact ih fun i inside => holds i (by omega)
  | case3 first count some fails _ => exact absurd (holds _ (by omega)) fails

/-- A test that holds at a position of a range holds at all later ones. -/
def Rises (test : Nat → Bool) (first count : Nat) : Prop :=
  ∀ i j, first ≤ i → i ≤ j → j < first + count → test i = true → test j = true

/-- The position that is found parts those where the test fails from those where it holds. -/
theorem bisect_parts {test : Nat → Bool} {first count : Nat} (rises : Rises test first count) :
    bisect test first count ≤ first + count ∧
      (∀ i, first ≤ i → i < bisect test first count → test i = false) ∧
      ∀ i, bisect test first count ≤ i → i < first + count → test i = true := by
  fun_induction bisect test first count with
  | case1 first => exact ⟨Nat.le_refl _, by omega, by omega⟩
  | case2 first count some holds ih =>
      obtain ⟨inside, before, behind⟩ := ih fun i j start le stop => rises i j start le (by omega)
      refine ⟨by omega, before, fun i start stop => ?_⟩
      obtain lower | upper := Nat.lt_or_ge i (first + count / 2)
      · exact behind i start lower
      · exact rises _ i (by omega) upper stop holds
  | case3 first count some fails ih =>
      obtain ⟨inside, before, behind⟩ := ih fun i j start le stop =>
        rises i j (by omega) le (by omega)
      refine ⟨by omega, fun i start stop => ?_, fun i start stop => behind i start (by omega)⟩
      obtain lower | upper := Nat.lt_or_ge (first + count / 2) i
      · exact before i lower stop
      · rw [Bool.eq_false_iff]
        exact fun holds => fails (rises i _ start upper (by omega) holds)

variable {α β : Type} {above : α → Bool} {xs : Array α}

theorem mem_of_lastBefore? {x : α} (found : lastBefore? above xs = some x) : x ∈ xs := by
  rw [lastBefore?] at found
  split at found
  · cases found
  · exact Array.mem_of_getElem? found

/-- Elements are found as before where something else stands for each of them and passes the test
with the same outcome. -/
theorem lastBefore?_map {above' : β → Bool} {f : α → β}
    (same : ∀ x ∈ xs, above' (f x) = above x) :
    lastBefore? above' (xs.map f) = (lastBefore? above xs).map f := by
  have tests : ∀ i < 0 + xs.size, ((xs.map f)[i]?).any above' = (xs[i]?).any above := by
    intro i inside
    rw [Nat.zero_add] at inside
    rw [Array.getElem?_map, Array.getElem?_eq_getElem inside]
    exact same _ (Array.getElem_mem inside)
  rw [lastBefore?, lastBefore?, Array.size_map, bisect_congr tests]
  split
  · rfl
  · exact Array.getElem?_map

/-- A test that holds up to a position and fails from it on leaves what comes before the
position. -/
theorem filter_eq_take {p : α → Bool} {l : List α} {position : Nat}
    (before : ∀ (i : Nat) (_ : i < l.length), i < position → p l[i] = true)
    (behind : ∀ (i : Nat) (_ : i < l.length), position ≤ i → p l[i] = false) :
    l.filter p = l.take position := by
  have all : (l.take position).filter p = l.take position := by
    refine List.filter_eq_self.mpr fun x mem => ?_
    obtain ⟨i, inside, rfl⟩ := List.mem_take_iff_getElem.mp mem
    exact before i (by omega) (by omega)
  have none : (l.drop position).filter p = [] := by
    refine List.filter_eq_nil_iff.mpr fun x mem => ?_
    obtain ⟨i, inside, rfl⟩ := List.mem_drop_iff_getElem.mp mem
    exact Bool.eq_false_iff.mp (behind _ _ (Nat.le_add_right ..))
  conv => lhs; rw [← List.take_append_drop position l, List.filter_append, all, none,
    List.append_nil]

/-- Where nothing comes after an element above but elements above, the last of the others is
found. -/
theorem lastBefore?_eq_getLast?
    (rises : xs.toList.Pairwise fun a b => above a = true → above b = true) :
    lastBefore? above xs = (xs.toList.filter fun x => !above x).getLast? := by
  have test (i : Nat) (inside : i < xs.size) : (xs[i]?).any above = above xs[i] := by
    rw [Array.getElem?_eq_getElem inside, Option.any_some]
  have rising : Rises (fun i => (xs[i]?).any above) 0 xs.size := by
    intro i j _ le stop holds
    rw [Nat.zero_add] at stop
    dsimp only at holds ⊢
    rw [test i (by omega)] at holds
    rw [test j stop]
    obtain rfl | before := Nat.eq_or_lt_of_le le
    · exact holds
    · exact List.pairwise_iff_getElem.mp rises i j (Nat.lt_trans before stop) stop before holds
  rw [lastBefore?]
  obtain ⟨inside, before, behind⟩ := bisect_parts rising
  generalize bisect (fun i => (xs[i]?).any above) 0 xs.size = position at inside before behind
  rw [Nat.zero_add] at inside behind
  have kept : xs.toList.filter (fun x => !above x) = xs.toList.take position := by
    refine filter_eq_take (fun i stop lower => ?_) fun i stop upper => ?_
    · rw [Array.getElem_toList, ← test i stop, before i (Nat.zero_le i) lower]
      rfl
    · rw [Array.getElem_toList, ← test i stop, behind i upper stop]
      rfl
  rw [kept]
  cases position with
  | zero => rfl
  | succ last =>
      rw [List.getLast?_eq_getElem?, List.length_take, Array.length_toList,
        Nat.min_eq_left inside, Nat.add_sub_cancel,
        List.getElem?_take_of_lt (Nat.lt_succ_self last),
        Array.getElem?_toList]

/-- Nothing is found where all elements are above. -/
theorem lastBefore?_eq_none (all : ∀ x ∈ xs, above x = true) : lastBefore? above xs = none := by
  have tests : ∀ i < 0 + xs.size, (xs[i]?).any above = true := by
    intro i inside
    rw [Nat.zero_add] at inside
    rw [Array.getElem?_eq_getElem inside]
    exact all _ (Array.getElem_mem inside)
  rw [lastBefore?, bisect_of_forall tests]

end GoInspect
