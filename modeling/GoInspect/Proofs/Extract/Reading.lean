import GoInspect.Extract.Basic

/-!
# What readings come to

A reading may come to nothing where the bound on the nesting of steps is met. `Ensures` is about the
values it comes to otherwise, whatever was visited before; `Gives` also promises that it comes to
one. Both follow the sequence of a reading, so that one statement for each reading is enough for
those that use it.
-/

namespace GoInspect

namespace Extract

section Sequence

variable {α β : Type} {p : Reading α} {k : α → Reading β} {trace : Trace}

theorem bind_eq_some_iff {outcome : β × Trace} :
    (p >>= k) trace = some outcome ↔
      ∃ v between, p trace = some (v, between) ∧ k v between = some outcome := by
  have sequence : (p >>= k) trace = (p trace).bind fun first => k first.1 first.2 := rfl
  rw [sequence, Option.bind_eq_some_iff]
  exact ⟨fun ⟨first, come, rest⟩ => ⟨first.1, first.2, come, rest⟩,
    fun ⟨v, between, come, rest⟩ => ⟨(v, between), come, rest⟩⟩

theorem bind_of_some {v : α} {between : Trace} (h : p trace = some (v, between)) :
    (p >>= k) trace = k v between := by
  show (p trace).bind _ = _
  rw [h]
  rfl

theorem bind_of_none (h : p trace = none) : (p >>= k) trace = none := by
  show (p trace).bind _ = _
  rw [h]
  rfl

end Sequence

/-- All values that a reading comes to satisfy a condition. -/
def Ensures {α : Type} (p : Reading α) (post : α → Prop) : Prop :=
  ∀ trace v trace', p trace = some (v, trace') → post v

section Rules

variable {α β : Type} {p : Reading α} {post mid : α → Prop} {result : β → Prop}

theorem ensures_pure {v : α} (h : post v) : Ensures (pure v) post := by
  intro trace v' trace' come
  cases come
  exact h

theorem ensures_true (p : Reading α) : Ensures p fun _ => True := fun _ _ _ _ => trivial

/-- A sequence: what the first part ensures is what the second part starts from. -/
theorem Ensures.bind {k : α → Reading β} (h : Ensures p mid)
    (next : ∀ v, mid v → Ensures (k v) result) : Ensures (p >>= k) result := by
  intro trace w trace' come
  obtain ⟨v, between, first, rest⟩ := bind_eq_some_iff.mp come
  exact next v (h trace v between first) between w trace' rest

/-- A sequence whose first part does not matter. -/
theorem Ensures.after {k : α → Reading β} (next : ∀ v, Ensures (k v) result) :
    Ensures (p >>= k) result :=
  (ensures_true p).bind fun v _ => next v

theorem Ensures.mono (h : Ensures p mid) (le : ∀ v, mid v → post v) : Ensures p post := by
  intro trace v trace' come
  exact le v (h trace v trace' come)

end Rules

/-- A reading comes to a value that satisfies a condition, and leaves nothing behind, whatever was
left before. -/
def Gives {α : Type} (p : Reading α) (post : α → Prop) : Prop :=
  ∀ trace, ∃ v, p trace = some (v, trace) ∧ post v

section Total

variable {α β : Type} {p : Reading α} {post mid : α → Prop} {result : β → Prop}

theorem gives_pure {v : α} (h : post v) : Gives (pure v) post := fun _ => ⟨v, rfl, h⟩

theorem Gives.bind {k : α → Reading β} (h : Gives p post)
    (next : ∀ v, post v → Gives (k v) result) : Gives (p >>= k) result := by
  intro trace
  obtain ⟨v, come, holds⟩ := h trace
  obtain ⟨w, rest, good⟩ := next v holds trace
  exact ⟨w, (bind_of_some come).trans rest, good⟩

theorem Gives.mono (h : Gives p mid) (le : ∀ v, mid v → post v) : Gives p post := by
  intro trace
  obtain ⟨v, come, holds⟩ := h trace
  exact ⟨v, come, le v holds⟩

end Total

end Extract

end GoInspect
