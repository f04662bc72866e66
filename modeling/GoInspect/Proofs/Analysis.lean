import GoInspect.Analysis

/-!
# The level of support after an analysis

An analysis may give up support of a binary, but only of a portable executable that the user did not
insist on, and only where it finds nothing.
-/

namespace GoInspect

/-- Support of an image is given up. -/
structure GivesUp (image : Image) (level level' : SupportLevel) : Prop where
  before : level = .auto
  after : level' = .disable
  executable : image.format = .portableExecutable

namespace FunctionTable

/-- Looking for the next place keeps the level, or gives up and finds none. -/
theorem Locator.next_level (image : Image) (m : Memory) (pointerWidth : UInt32)
    (level : SupportLevel) (l : Locator) :
    (l.next image m pointerWidth level).value.2.2 = level ∨
      (l.next image m pointerWidth level).value.1 = none ∧
        GivesUp image level (l.next image m pointerWidth level).value.2.2 := by
  cases l with
  | finished => exact .inl rfl
  | scan data magics offset => exact .inl rfl
  | sections names =>
      simp only [next]
      cases nextSection? image names with
      | some s => exact .inl rfl
      | none =>
          by_cases executable : image.format = .portableExecutable
          · simp only [executable, ne_eq, not_true_eq_false, if_false]
            cases level with
            | auto => exact .inr ⟨rfl, rfl, rfl, executable⟩
            | disable => exact .inl rfl
            | force => cases image.section? scannedSection <;> exact .inl rfl
          · simp only [executable, ne_eq, not_false_eq_true, if_true]
            exact .inl rfl

end FunctionTable

namespace Analysis

variable (image : Image) (m : Memory) (pointerWidth : UInt32) (level : SupportLevel)

theorem search_level (limit : Nat) (locator : FunctionTable.Locator) :
    (search image m pointerWidth limit locator level).value.2 = level ∨
      (search image m pointerWidth limit locator level).value.1 = none ∧
        GivesUp image level (search image m pointerWidth limit locator level).value.2 := by
  induction limit generalizing locator level with
  | zero => exact .inl rfl
  | succ limit ih =>
      have next := locator.next_level image m pointerWidth level
      simp only [search, Logged.value_bind]
      generalize (locator.next image m pointerWidth level).value = found at next ⊢
      obtain ⟨candidate, rest, level'⟩ := found
      cases candidate with
      | none => exact next.imp id fun given => ⟨rfl, given.2⟩
      | some c =>
          obtain rfl | ⟨none, _⟩ := next
          · simp only [Logged.value_bind]
            cases (FunctionTable.decodeLogged c m).value with
            | ok t => exact .inl rfl
            | error e => exact ih level' rest
          · cases none

/-- An analysis keeps the level of support, or gives up and finds nothing. -/
theorem run_level : (run image m pointerWidth level).value.2 = level ∨
    (run image m pointerWidth level).value.1 = none ∧
      GivesUp image level (run image m pointerWidth level).value.2 := by
  rw [run]
  split
  · exact .inl rfl
  · exact search_level image m pointerWidth level _ _

end Analysis

end GoInspect
