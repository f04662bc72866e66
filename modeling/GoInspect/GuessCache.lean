/-!
# Bounded guesses

A cache of a fixed number of slots from addresses to guesses. When every slot is taken, a new guess
replaces the one that was added longest ago. Overwriting a guess counts as adding it; looking one up
does not. How many slots are taken is counted beside the slots, and whatever changes a slot comes
with the proof that the count still fits.
-/

namespace GoInspect

namespace GuessCache

structure Slot (α : Type) where
  key : UInt64
  /-- The number of the addition that wrote the slot. -/
  stamp : UInt64
  value : α
  deriving Repr

end GuessCache

/-- A fixed number of slots, some of them empty, and the number of the next addition. -/
structure GuessCache (α : Type) where
  slots : List (Option (GuessCache.Slot α))
  size : Nat
  /-- The number of the next addition. -/
  next : UInt64
  /-- The slots that are taken have been counted. -/
  counted : size = slots.countP Option.isSome
  deriving Repr

namespace GuessCache

variable {α : Type}

def empty (capacity : Nat) : GuessCache α where
  slots := List.replicate capacity none
  size := 0
  next := 0
  counted := by
    rw [List.countP_replicate]
    rfl

def capacity (c : GuessCache α) : Nat := c.slots.length

def holds (key : UInt64) : Option (Slot α) → Bool
  | some s => s.key == key
  | none => false

def find? (c : GuessCache α) (key : UInt64) : Option α :=
  (c.slots.find? (holds key)).bind (·.map Slot.value)

section Counting

variable {slots : List (Option (Slot α))} {i : Nat}

/-- One slot that changes changes the count by what was in it and what is in it now. -/
theorem countP_set {old new : Option (Slot α)} (at_i : slots[i]? = some old) :
    (slots.set i new).countP Option.isSome + old.isSome.toNat =
      slots.countP Option.isSome + new.isSome.toNat := by
  induction slots generalizing i with
  | nil => cases at_i
  | cons first rest ih =>
      cases i with
      | zero =>
          cases at_i
          cases old <;> cases new <;> simp
      | succ i =>
          have later := ih at_i
          rw [List.set_cons_succ, List.countP_cons, List.countP_cons]
          omega

theorem exists_of_findIdx? {p : Option (Slot α) → Bool} (h : slots.findIdx? p = some i) :
    ∃ old, slots[i]? = some old ∧ p old := by
  obtain ⟨inside, good, _⟩ := List.findIdx?_eq_some_iff_getElem.mp h
  exact ⟨slots[i], List.getElem?_eq_getElem inside, good⟩

end Counting

def overwrite (c : GuessCache α) (i : Nat) (s : Slot α)
    (taken : ∃ old, c.slots[i]? = some (some old)) : GuessCache α where
  slots := c.slots.set i (some s)
  size := c.size
  next := c.next + 1
  counted := by
    obtain ⟨old, at_i⟩ := taken
    have same : (c.slots.set i (some s)).countP Option.isSome + 1 =
        c.slots.countP Option.isSome + 1 := countP_set at_i
    rw [c.counted, Nat.add_right_cancel same]

def fill (c : GuessCache α) (i : Nat) (s : Slot α) (free : c.slots[i]? = some none) :
    GuessCache α where
  slots := c.slots.set i (some s)
  size := c.size + 1
  next := c.next + 1
  counted := by
    have more : (c.slots.set i (some s)).countP Option.isSome + 0 =
        c.slots.countP Option.isSome + 1 := countP_set free
    rw [c.counted, ← more]
    rfl

/-- The first empty slot, where the count says that there is one. -/
def hole? (c : GuessCache α) : Option Nat :=
  if c.size < c.slots.length then c.slots.findIdx? Option.isNone else none

/-- The least stamp among the slots that are taken. -/
def leastStamp? (slots : List (Option (Slot α))) : Option UInt64 :=
  (slots.filterMap (·.map Slot.stamp)).min?

/-- The first slot with the least stamp. -/
def oldest? (slots : List (Option (Slot α))) : Option Nat :=
  (leastStamp? slots).bind fun stamp => slots.findIdx? fun s => s.map Slot.stamp == some stamp

theorem taken_of_holds {slots : List (Option (Slot α))} {key : UInt64} {i : Nat}
    (h : slots.findIdx? (holds key) = some i) : ∃ old, slots[i]? = some (some old) := by
  obtain ⟨old, at_i, held⟩ := exists_of_findIdx? h
  cases old with
  | none => cases held
  | some s => exact ⟨s, at_i⟩

theorem free_of_hole? {c : GuessCache α} {i : Nat} (h : c.hole? = some i) :
    c.slots[i]? = some none := by
  rw [hole?] at h
  split at h
  · obtain ⟨old, at_i, free⟩ := exists_of_findIdx? h
    cases old with
    | none => exact at_i
    | some s => cases free
  · cases h

theorem taken_of_oldest? {slots : List (Option (Slot α))} {i : Nat} (h : oldest? slots = some i) :
    ∃ old, slots[i]? = some (some old) := by
  obtain ⟨stamp, _, found⟩ := Option.bind_eq_some_iff.mp h
  obtain ⟨old, at_i, least⟩ := exists_of_findIdx? found
  cases old with
  | none => cases least
  | some s => exact ⟨s, at_i⟩

/-- Records a guess: over the one about the same address, else in the first empty slot, else over
the one written longest ago. A cache without slots keeps none. -/
def add (c : GuessCache α) (key : UInt64) (value : α) : GuessCache α :=
  match held : c.slots.findIdx? (holds key) with
  | some i => c.overwrite i ⟨key, c.next, value⟩ (taken_of_holds held)
  | none =>
    match free : c.hole? with
    | some i => c.fill i ⟨key, c.next, value⟩ (free_of_hole? free)
    | none =>
      match oldest : oldest? c.slots with
      | some i => c.overwrite i ⟨key, c.next, value⟩ (taken_of_oldest? oldest)
      | none => { c with next := c.next + 1 }

def remove (c : GuessCache α) (key : UInt64) : GuessCache α :=
  match held : c.slots.findIdx? (holds key) with
  | some i =>
    { slots := c.slots.set i none
      size := c.size - 1
      next := c.next
      counted := by
        obtain ⟨old, at_i⟩ := taken_of_holds held
        have less : (c.slots.set i none).countP Option.isSome + 1 =
            c.slots.countP Option.isSome + 0 := countP_set at_i
        rw [c.counted, ← Nat.add_zero (c.slots.countP _), ← less]
        rfl }
  | none => c

def clear (c : GuessCache α) : GuessCache α where
  slots := c.slots.map fun _ => none
  size := 0
  next := c.next
  counted := by
    rw [List.countP_map]
    exact (List.countP_eq_zero.mpr fun _ _ => Bool.false_ne_true).symm

/-- The guesses in slot order. -/
def entries (c : GuessCache α) : List (UInt64 × α) :=
  c.slots.filterMap (·.map fun s => (s.key, s.value))

end GuessCache

end GoInspect
