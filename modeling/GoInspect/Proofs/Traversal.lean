import Mathlib.Data.List.Basic

/-!
# Steps taken along a list

Readers and printers go along lists with `List.mapM`: one step for each member, and a failure where
one step fails.
-/

namespace GoInspect

/-- Steps that all succeed give the results of all. -/
theorem mapM_eq_pure {α β : Type} {m : Type → Type} [Monad m] [LawfulMonad m] {f : α → m β}
    {g : α → β} {l : List α} (h : ∀ a ∈ l, f a = pure (g a)) : l.mapM f = pure (l.map g) := by
  induction l with
  | nil => rfl
  | cons a rest ih =>
      rw [List.mapM_cons, h a (List.mem_cons_self ..), pure_bind,
        ih fun b mem => h b (List.mem_cons_of_mem a mem), pure_bind]
      rfl

/-- Results that are changed after each step are those of the unchanged steps, changed. -/
theorem mapM_map_result {α β γ : Type} {m : Type → Type} [Monad m] [LawfulMonad m] {f : α → m β}
    {g : β → γ} (l : List α) : l.mapM (fun a => g <$> f a) = List.map g <$> l.mapM f := by
  induction l with
  | nil => simp
  | cons a rest ih => simp [ih]

theorem isSome_mapM {α β : Type} {f : α → Option β} {l : List α} :
    (l.mapM f).isSome ↔ ∀ a ∈ l, (f a).isSome := by
  induction l with
  | nil => simp
  | cons a rest ih =>
      rw [List.mapM_cons, List.forall_mem_cons, ← ih]
      cases f a with
      | none => simp
      | some b => cases rest.mapM f <;> simp

theorem mapM_congr {α β : Type} {f f' : α → Option β} {l : List α} (same : ∀ a ∈ l, f a = f' a) :
    l.mapM f = l.mapM f' := by
  induction l with
  | nil => rfl
  | cons a rest ih =>
      obtain ⟨first, others⟩ := List.forall_mem_cons.mp same
      rw [List.mapM_cons, List.mapM_cons, first, ih others]

theorem mapM_attach {α β : Type} {l : List α} {f : { a // a ∈ l } → Option β} {g : α → Option β}
    (same : ∀ a, f a = g a.1) : l.attach.mapM f = l.mapM g := by
  have whole : l.attach.mapM (g ∘ Subtype.val) = l.mapM g := by
    rw [← List.mapM_map, List.attach_map_subtype_val]
  rw [← whole]
  exact mapM_congr fun a _ => same a

/-- What comes out of a list of optional steps came out of one of them. -/
theorem exists_of_mapM {α β : Type} {f : α → Option β} {l : List α} {found : List β}
    (h : l.mapM f = some found) {b : β} (mem : b ∈ found) : ∃ a ∈ l, f a = some b := by
  induction l generalizing found with
  | nil =>
      cases h
      cases mem
  | cons a rest ih =>
      rw [List.mapM_cons] at h
      simp only [Option.bind_eq_bind, Option.bind_eq_some_iff, Option.pure_def] at h
      obtain ⟨first, here, others, there, eq⟩ := h
      cases eq
      obtain rfl | mem := List.mem_cons.mp mem
      · exact ⟨a, List.mem_cons_self .., here⟩
      · obtain ⟨a', inside, come⟩ := ih there mem
        exact ⟨a', List.mem_cons_of_mem _ inside, come⟩

/-- Steps that may be rejected, none of which was. -/
theorem map_eq_of_mapM_ok {ε α β : Type} {f : α → Except ε β} {l : List α} {found : List β}
    (h : l.mapM f = .ok found) : l.map f = found.map .ok := by
  induction l generalizing found with
  | nil =>
      cases h
      rfl
  | cons a rest ih =>
      rw [List.mapM_cons] at h
      cases here : f a with
      | error e =>
          rw [here] at h
          cases h
      | ok first =>
          cases there : rest.mapM f with
          | error e =>
              rw [here, there] at h
              cases h
          | ok others =>
              rw [here, there] at h
              cases h
              rw [List.map_cons, List.map_cons, here, ih there]

/-- A list that is found position by position. -/
theorem mapM_range_eq_some {α : Type} {l : List α} {f : Nat → Option α}
    (found : ∀ i a, l[i]? = some a → f i = some a) : (List.range l.length).mapM f = some l := by
  induction l generalizing f with
  | nil => rfl
  | cons a rest ih =>
      have others := ih fun i b mem => found (i + 1) b mem
      rw [List.length_cons, List.range_succ_eq_map, List.mapM_cons, found 0 a rfl, List.mapM_map,
        Function.comp_def, others]
      rfl

theorem filterMap_range_eq {α : Type} {l : List α} {f : Nat → Option α}
    (found : ∀ i a, l[i]? = some a → f i = some a) : (List.range l.length).filterMap f = l := by
  induction l generalizing f with
  | nil => rfl
  | cons a rest ih =>
      have others := ih fun i b mem => found (i + 1) b mem
      rw [List.length_cons, List.range_succ_eq_map, List.filterMap_cons_some (found 0 a rfl),
        List.filterMap_map, Function.comp_def, others]

end GoInspect
