import GoInspect.Proofs.GuessCache.Recency

/-!
# The addresses in a cache

A cache that began empty never holds two guesses about one address. As long as that is so, a guess
that is removed is gone, and one that is added is found. No other guess is lost, but for the one
that was written longest ago, when an addition finds no empty slot.
-/

namespace GoInspect

namespace GuessCache

variable {α : Type} {c : GuessCache α} {key other : UInt64} {value : α}

/-- The guesses are about different addresses. -/
def DistinctKeys (c : GuessCache α) : Prop := (c.entries.map Prod.fst).Nodup

/-- The address of the guess that was written longest ago. -/
def oldestKey? (c : GuessCache α) : Option UInt64 :=
  (oldest? c.slots).bind fun i => c.slots[i]?.join.map Slot.key

/-- A guess gave way to another one: all slots were taken, and it was written longest ago. -/
structure Evicted (c c' : GuessCache α) (key : UInt64) : Prop where
  full : c.size = c.capacity
  oldest : c.oldestKey? = some key
  gone : c'.find? key = none

/-- No slot holds a guess about an address. -/
def Absent (slots : List (Option (Slot α))) (key : UInt64) : Prop :=
  ∀ s, some s ∈ slots → s.key ≠ key

/-- The slots that an addition leaves. -/
inductive Written (c : GuessCache α) (key : UInt64) (value : α) :
    List (Option (Slot α)) → Prop where
  | again {i : Nat} {s : Slot α} : c.slots[i]? = some (some s) → s.key = key →
      Written c key value (c.slots.set i (some ⟨key, c.next, value⟩))
  | free {i : Nat} : Absent c.slots key → c.slots[i]? = some none →
      Written c key value (c.slots.set i (some ⟨key, c.next, value⟩))
  | evict {i : Nat} {s : Slot α} : Absent c.slots key → c.slots[i]? = some (some s) →
      c.size = c.capacity → c.oldestKey? = some s.key →
      Written c key value (c.slots.set i (some ⟨key, c.next, value⟩))
  | noSlots : Absent c.slots key → Written c key value c.slots

section Slots

variable {slots : List (Option (Slot α))} {i : Nat} {old : Option (Slot α)}

theorem map_fst_entries (c : GuessCache α) :
    c.entries.map Prod.fst = c.slots.reduceOption.map Slot.key := by
  rw [entries, List.reduceOption, List.map_filterMap, List.map_filterMap]
  congr 1
  funext x
  cases x <;> rfl

/-- A slot without a guess about an address, before and afterwards, does not matter to it. -/
theorem find?_holds_set {new : Option (Slot α)} (at_i : slots[i]? = some old)
    (before : holds key old = false) (after : holds key new = false) :
    (slots.set i new).find? (holds key) = slots.find? (holds key) := by
  induction slots generalizing i with
  | nil => cases at_i
  | cons first rest ih =>
      cases i with
      | zero =>
          cases at_i
          rw [List.set_cons_zero, List.find?_cons_of_neg (Bool.not_eq_true _ ▸ after),
            List.find?_cons_of_neg (Bool.not_eq_true _ ▸ before)]
      | succ i => rw [List.set_cons_succ, List.find?_cons, List.find?_cons, ih at_i]

/-- A slot is written without a second guess about an address, if it held the first one. -/
theorem nodup_keys_set {s : Slot α} (distinct : (slots.reduceOption.map Slot.key).Nodup)
    (at_i : slots[i]? = some old) (first : ∀ s', some s' ∈ slots → s'.key = s.key → old = some s') :
    ((slots.set i (some s)).reduceOption.map Slot.key).Nodup := by
  obtain ⟨others, before, after⟩ := exists_others at_i
  have keys := (before.map Slot.key).nodup_iff.mp distinct
  rw [List.map_append, List.nodup_append] at keys
  obtain ⟨_, rest, apart⟩ := keys
  rw [((after (some s)).map Slot.key).nodup_iff, List.map_append, List.nodup_append]
  refine ⟨rest, List.nodup_singleton s.key, ?_⟩
  intro key mem key' written same
  obtain ⟨s', inside, rfl⟩ := List.mem_map.mp mem
  have slot := List.reduceOption_mem_iff.mp (before.mem_iff.mpr (List.mem_append_right _ inside))
  have held : old = some s' := first s' slot (same.trans (List.mem_singleton.mp written))
  have here : s'.key ∈ old.toList.map Slot.key := by
    rw [held]
    exact List.mem_singleton_self s'.key
  exact apart s'.key here s'.key mem rfl

theorem nodup_keys_set_none (distinct : (slots.reduceOption.map Slot.key).Nodup)
    (at_i : slots[i]? = some old) : ((slots.set i none).reduceOption.map Slot.key).Nodup := by
  obtain ⟨others, before, after⟩ := exists_others at_i
  have keys := (before.map Slot.key).nodup_iff.mp distinct
  rw [List.map_append, List.nodup_append] at keys
  rw [((after none).map Slot.key).nodup_iff, Option.toList_none, List.append_nil]
  exact keys.2.1

/-- A guess is gone when its slot is written. -/
theorem absent_set {s : Slot α} {new : Option (Slot α)}
    (distinct : (slots.reduceOption.map Slot.key).Nodup) (at_i : slots[i]? = some (some s))
    (other : ∀ s', new = some s' → s'.key ≠ s.key) : Absent (slots.set i new) s.key := by
  obtain ⟨others, before, after⟩ := exists_others at_i
  have keys := (before.map Slot.key).nodup_iff.mp distinct
  intro s' slot
  have mem := (after new).mem_iff.mp (List.reduceOption_mem_iff.mpr slot)
  obtain kept | written := List.mem_append.mp mem
  · intro same
    exact (List.nodup_cons.mp keys).1 (same ▸ List.mem_map_of_mem kept)
  · exact other s' (Option.mem_toList.mp written)

theorem absent_of_findIdx? (none : slots.findIdx? (holds key) = none) : Absent slots key := by
  intro s slot
  have free := List.findIdx?_eq_none_iff.mp none (some s) slot
  exact beq_eq_false_iff_ne.mp free

theorem Absent.find?_holds (h : Absent slots key) : slots.find? (holds key) = none := by
  rw [List.find?_eq_none]
  intro x slot held
  cases x with
  | none => cases held
  | some s => exact h s slot (beq_iff_eq.mp held)

end Slots

theorem Absent.find? (h : Absent c.slots key) : c.find? key = none := by
  rw [GuessCache.find?, h.find?_holds]
  rfl

theorem distinctKeys_iff : c.DistinctKeys ↔ (c.slots.reduceOption.map Slot.key).Nodup := by
  rw [DistinctKeys, map_fst_entries]

theorem DistinctKeys.find?_of_mem {s : Slot α} (distinct : c.DistinctKeys)
    (slot : some s ∈ c.slots) : c.find? s.key = some s.value := by
  have found := (find?_eq_some_iff (distinctKeys_iff.mp distinct)).mpr
    ⟨List.reduceOption_mem_iff.mpr slot, rfl⟩
  rw [find?_eq, found]
  rfl

theorem distinctKeys_empty (capacity : Nat) : (empty capacity : GuessCache α).DistinctKeys := by
  rw [DistinctKeys, entries_empty]
  exact .nil

theorem distinctKeys_clear : c.clear.DistinctKeys := by
  rw [DistinctKeys, entries_clear]
  exact .nil

section Additions

theorem written_add (c : GuessCache α) (key : UInt64) (value : α) :
    c.Written key value (c.add key value).slots := by
  unfold add
  split
  case h_1 i held =>
    obtain ⟨old, at_i, about⟩ := exists_of_findIdx? held
    cases old with
    | none => cases about
    | some s => exact .again at_i (beq_iff_eq.mp about)
  case h_2 none =>
    have absent := absent_of_findIdx? none
    split
    case h_1 i free => exact .free absent (free_of_hole? free)
    case h_2 none =>
      have full := size_eq_capacity_of_hole? none
      split
      case h_1 i oldest =>
        obtain ⟨s, at_i⟩ := taken_of_oldest? oldest
        refine .evict absent at_i full ?_
        rw [oldestKey?, oldest, Option.bind_some, at_i]
        rfl
      case h_2 none => exact .noSlots absent

variable {slots : List (Option (Slot α))}

theorem Written.nodup (h : c.Written key value slots) (distinct : c.DistinctKeys) :
    (slots.reduceOption.map Slot.key).Nodup := by
  have keys := distinctKeys_iff.mp distinct
  cases h with
  | @again i s at_i about =>
      refine nodup_keys_set keys at_i fun s' slot same => congrArg some ?_
      exact List.inj_on_of_nodup_map keys
        (List.reduceOption_mem_iff.mpr (List.mem_of_getElem? at_i))
        (List.reduceOption_mem_iff.mpr slot) (about.trans same.symm)
  | free absent at_i =>
      exact nodup_keys_set keys at_i fun s' slot same => absurd same (absent s' slot)
  | evict absent at_i =>
      exact nodup_keys_set keys at_i fun s' slot same => absurd same (absent s' slot)
  | noSlots => exact keys

/-- The guess itself is added, or there are no slots. -/
theorem Written.mem_or_absent (h : c.Written key value slots) :
    some ⟨key, c.next, value⟩ ∈ slots ∨ Absent slots key := by
  have there {i : Nat} {old : Option (Slot α)} {s : Slot α} (at_i : c.slots[i]? = some old) :
      some s ∈ c.slots.set i (some s) :=
    List.mem_set (List.getElem?_eq_some_iff.mp at_i).1 _
  cases h with
  | again at_i => exact .inl (there at_i)
  | free _ at_i => exact .inl (there at_i)
  | evict _ at_i => exact .inl (there at_i)
  | noSlots absent => exact .inr absent

/-- Another guess is kept, unless it is the oldest of as many guesses as there are slots. -/
theorem Written.find?_of_ne (h : c.Written key value slots) (distinct : c.DistinctKeys)
    (ne : other ≠ key) :
    slots.find? (holds other) = c.slots.find? (holds other) ∨
      c.size = c.capacity ∧ c.oldestKey? = some other ∧ Absent slots other := by
  have written : holds other (some (⟨key, c.next, value⟩ : Slot α)) = false :=
    beq_eq_false_iff_ne.mpr ne.symm
  cases h with
  | @again i s at_i about =>
      have held : holds other (some s) = false :=
        beq_eq_false_iff_ne.mpr fun same => ne (same.symm.trans about)
      exact .inl (find?_holds_set at_i held written)
  | free _ at_i => exact .inl (find?_holds_set at_i rfl written)
  | @evict i s _ at_i full oldest =>
      by_cases same : s.key = other
      · refine .inr ⟨full, same ▸ oldest, ?_⟩
        subst same
        apply absent_set (distinctKeys_iff.mp distinct) at_i
        rintro s' ⟨⟩
        exact ne.symm
      · exact .inl (find?_holds_set at_i (beq_eq_false_iff_ne.mpr same) written)
  | noSlots => exact .inl rfl

theorem DistinctKeys.add (distinct : c.DistinctKeys) (key : UInt64) (value : α) :
    (c.add key value).DistinctKeys :=
  distinctKeys_iff.mpr ((written_add c key value).nodup distinct)

/-- No other guess about the address is found. -/
theorem DistinctKeys.find?_add_self {found : α} (distinct : c.DistinctKeys)
    (h : (c.add key value).find? key = some found) : found = value := by
  obtain slot | absent := (written_add c key value).mem_or_absent
  · have added := (distinct.add key value).find?_of_mem slot
    exact Option.some.inj (h.symm.trans added)
  · rw [absent.find?] at h
    cases h

theorem DistinctKeys.find?_add_of_ne (distinct : c.DistinctKeys) (ne : other ≠ key) (value : α) :
    (c.add key value).find? other = c.find? other ∨ Evicted c (c.add key value) other := by
  obtain same | ⟨full, oldest, absent⟩ := (written_add c key value).find?_of_ne distinct ne
  · exact .inl (congrArg (Option.bind · (Option.map Slot.value)) same)
  · exact .inr ⟨full, oldest, absent.find?⟩

end Additions

section Removals

/-- What a removal does: nothing, or one slot is empty afterwards. -/
theorem remove_cases (c : GuessCache α) (key : UInt64) :
    Absent c.slots key ∧ c.remove key = c ∨
      ∃ i s, c.slots[i]? = some (some s) ∧ s.key = key ∧
        (c.remove key).slots = c.slots.set i none ∧ (c.remove key).size = c.size - 1 := by
  unfold remove
  split
  case h_1 i held =>
    obtain ⟨old, at_i, about⟩ := exists_of_findIdx? held
    cases old with
    | none => cases about
    | some s => exact .inr ⟨i, s, at_i, beq_iff_eq.mp about, rfl, rfl⟩
  case h_2 none => exact .inl ⟨absent_of_findIdx? none, rfl⟩

theorem remove_of_find?_eq_none (none : c.find? key = none) : c.remove key = c := by
  obtain ⟨_, same⟩ | ⟨i, s, at_i, about, _⟩ := c.remove_cases key
  · exact same
  · rw [find?_eq, Option.map_eq_none_iff, List.find?_eq_none] at none
    have slot := List.reduceOption_mem_iff.mpr (List.mem_of_getElem? at_i)
    exact absurd (beq_iff_eq.mpr about) (none s slot)

theorem find?_remove_of_ne (ne : other ≠ key) : (c.remove key).find? other = c.find? other := by
  obtain ⟨_, same⟩ | ⟨i, s, at_i, about, slots, _⟩ := c.remove_cases key
  · rw [same]
  · have held : holds other (some s) = false :=
      beq_eq_false_iff_ne.mpr fun same => ne (same.symm.trans about)
    rw [find?, slots, find?_holds_set at_i held rfl, find?]

theorem DistinctKeys.find?_remove_self (distinct : c.DistinctKeys) (key : UInt64) :
    (c.remove key).find? key = none := by
  apply Absent.find?
  obtain ⟨absent, same⟩ | ⟨i, s, at_i, rfl, slots, _⟩ := c.remove_cases key
  · rwa [same]
  · rw [slots]
    exact absent_set (distinctKeys_iff.mp distinct) at_i nofun

theorem DistinctKeys.remove (distinct : c.DistinctKeys) (key : UInt64) :
    (c.remove key).DistinctKeys := by
  obtain ⟨_, same⟩ | ⟨i, s, at_i, _, slots, _⟩ := c.remove_cases key
  · rwa [same]
  · rw [distinctKeys_iff, slots]
    exact nodup_keys_set_none (distinctKeys_iff.mp distinct) at_i

/-- Where a guess was removed, not all slots are taken. -/
theorem remove_eq_self_of_full (full : (c.remove key).size = (c.remove key).capacity) :
    c.remove key = c := by
  obtain ⟨_, same⟩ | ⟨i, s, at_i, _, _, size⟩ := c.remove_cases key
  · exact same
  · have slots : 0 < c.capacity := Nat.zero_lt_of_lt (List.getElem?_eq_some_iff.mp at_i).1
    have fits := c.size_le_capacity
    rw [capacity_remove, size] at full
    omega

end Removals

end GuessCache

end GoInspect
