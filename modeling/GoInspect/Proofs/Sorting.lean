import Mathlib.Data.List.Basic

/-!
# Sorting by a number

Sorting by a key puts elements with smaller keys first, and leaves those with equal keys in the
order that they had.
-/

namespace GoInspect

variable {α : Type} (key : α → UInt64)

section Order

theorem key_trans (a b c : α) (ab : decide (key a ≤ key b) = true)
    (bc : decide (key b ≤ key c) = true) : decide (key a ≤ key c) = true :=
  decide_eq_true (UInt64.le_trans (of_decide_eq_true ab) (of_decide_eq_true bc))

theorem key_total (a b : α) : (decide (key a ≤ key b) || decide (key b ≤ key a)) = true := by
  rw [Bool.or_eq_true, decide_eq_true_iff, decide_eq_true_iff]
  exact UInt64.le_total (key a) (key b)

end Order

theorem pairwise_sort (l : List α) :
    (l.mergeSort fun a b => key a ≤ key b).Pairwise fun a b => key a ≤ key b :=
  (List.pairwise_mergeSort (key_trans key) (key_total key) l).imp of_decide_eq_true

/-- Elements of one key keep their order. -/
theorem filter_sort (l : List α) (k : UInt64) :
    (l.mergeSort fun a b => key a ≤ key b).filter (fun a => key a = k) =
      l.filter fun a => key a = k := by
  -- They are sorted already, so that sorting keeps them as a sublist.
  have equal : (l.filter fun a => key a = k).Pairwise
      fun a b => decide (key a ≤ key b) = true := by
    refine List.pairwise_of_forall_mem_list fun a memA b memB => ?_
    have keyA := of_decide_eq_true (List.mem_filter.mp memA).2
    have keyB := of_decide_eq_true (List.mem_filter.mp memB).2
    rw [keyA, keyB]
    exact decide_eq_true UInt64.le_rfl
  have kept := (List.sublist_mergeSort (key_trans key) (key_total key) equal
    List.filter_sublist).filter fun a => decide (key a = k)
  simp only [List.filter_filter, Bool.and_self] at kept
  have perm := List.mergeSort_perm l fun a b => decide (key a ≤ key b)
  exact (kept.eq_of_length (perm.filter _).length_eq.symm).symm

end GoInspect
