import GoInspect.GuessCache

/-!
# What a guess cache holds

Every change of a cache is described by the guesses that are in it afterwards. The number of slots
never changes, and there are never more guesses than slots.
-/

namespace GoInspect

namespace GuessCache

variable {α : Type} (c : GuessCache α) {e : UInt64 × α} (key : UInt64) (value : α)

variable {c} in
theorem mem_entries_iff : e ∈ c.entries ↔ ∃ s, some s ∈ c.slots ∧ (s.key, s.value) = e := by
  simp only [entries, List.mem_filterMap, Option.map_eq_some_iff]
  constructor
  · rintro ⟨slot, mem, s, rfl, eq⟩
    exact ⟨s, mem, eq⟩
  · rintro ⟨s, mem, eq⟩
    exact ⟨some s, mem, s, rfl, eq⟩

@[simp] theorem entries_empty (capacity : Nat) : (empty capacity : GuessCache α).entries = [] := by
  apply List.eq_nil_iff_forall_not_mem.mpr
  intro e mem
  obtain ⟨s, slot, _⟩ := mem_entries_iff.mp mem
  cases List.eq_of_mem_replicate slot

@[simp] theorem entries_clear : c.clear.entries = [] := by
  apply List.eq_nil_iff_forall_not_mem.mpr
  intro e mem
  obtain ⟨s, slot, _⟩ := mem_entries_iff.mp mem
  obtain ⟨_, _, eq⟩ := List.mem_map.mp slot
  cases eq

/-- What writing one slot leaves is what is written and what was there before. -/
theorem mem_set {slots : List (Option (Slot α))} {i : Nat} {new : Option (Slot α)} {s : Slot α}
    (mem : some s ∈ slots.set i new) : some s ∈ slots ∨ new = some s := by
  obtain old | written := List.mem_or_eq_of_mem_set mem
  · exact .inl old
  · exact .inr written.symm

/-- An addition leaves nothing but itself and guesses that were there before. -/
theorem mem_entries_add (mem : e ∈ (c.add key value).entries) :
    e = (key, value) ∨ e ∈ c.entries := by
  obtain ⟨s, slot, rfl⟩ := mem_entries_iff.mp mem
  have written : some s ∈ c.slots ∨ some ⟨key, c.next, value⟩ = some s := by
    unfold add at slot
    split at slot
    · exact mem_set slot
    · split at slot
      · exact mem_set slot
      · split at slot
        · exact mem_set slot
        · exact .inl slot
  obtain old | new := written
  · exact .inr (mem_entries_iff.mpr ⟨s, old, rfl⟩)
  · cases new
    exact .inl rfl

theorem mem_entries_remove (mem : e ∈ (c.remove key).entries) : e ∈ c.entries := by
  obtain ⟨s, slot, rfl⟩ := mem_entries_iff.mp mem
  refine mem_entries_iff.mpr ⟨s, ?_, rfl⟩
  unfold remove at slot
  split at slot
  · obtain old | new := mem_set slot
    · exact old
    · cases new
  · exact slot

@[simp] theorem capacity_empty (capacity : Nat) :
    (empty capacity : GuessCache α).capacity = capacity := List.length_replicate

@[simp] theorem capacity_clear : c.clear.capacity = c.capacity := List.length_map _

@[simp] theorem capacity_remove : (c.remove key).capacity = c.capacity := by
  unfold remove
  split
  · exact List.length_set
  · rfl

@[simp] theorem capacity_add : (c.add key value).capacity = c.capacity := by
  unfold add
  split
  · exact List.length_set
  · split
    · exact List.length_set
    · split
      · exact List.length_set
      · rfl

theorem size_le_capacity : c.size ≤ c.capacity := by
  rw [c.counted]
  exact List.countP_le_length

end GuessCache

end GoInspect
