import GoInspect.FunctionTable
import GoInspect.Proofs.Bisection
import GoInspect.Proofs.Bytes
import GoInspect.Proofs.Sorting

/-!
# Looking functions up

What is found in a table is one of its functions. In a table that was moved as a whole the same is
found as before the move, for every program counter and its moved one.
-/

namespace GoInspect

section Words

variable {a c b : UInt64}

theorem moved_lt_moved (room : a.toNat + b.toNat < 2 ^ 64) (room' : c.toNat + b.toNat < 2 ^ 64) :
    a + b < c + b ↔ a < c := by
  rw [UInt64.lt_iff_toNat_lt, UInt64.lt_iff_toNat_lt, toNat_add room, toNat_add room']
  omega

/-- What lies behind an address moves along. -/
theorem moved_add (a b c : UInt64) : a + b + c = a + c + b := by
  rw [UInt64.add_assoc, UInt64.add_comm b, ← UInt64.add_assoc]

/-- Distances do not change, whether or not anything wraps around. -/
theorem moved_sub_moved (a c b : UInt64) : a + b - (c + b) = a - c := by
  rw [UInt64.sub_eq_iff_eq_add, ← UInt64.add_assoc, UInt64.sub_add_cancel]

/-- An address that wraps around comes to lie below all that do not. -/
theorem moved_lt_moved_of_wraps (wraps : 2 ^ 64 ≤ a.toNat + b.toNat)
    (room : c.toNat + b.toNat < 2 ^ 64) : a + b < c + b := by
  have small := a.toNat_lt
  have small' := b.toNat_lt
  rw [UInt64.lt_iff_toNat_lt, toNat_add room, UInt64.toNat_add]
  omega

end Words

/-- The distance that holds from a program counter on, elsewhere. -/
def StackDelta.moved (b : UInt64) (d : StackDelta) : StackDelta := { d with pc := d.pc + b }

/-- A function elsewhere. The binary stores the same entry for it. -/
def FunctionEntry.moved (b : UInt64) (f : FunctionEntry) : FunctionEntry :=
  { f with entry := f.entry + b, deltas := f.deltas.map (StackDelta.moved b) }

namespace FunctionTable

/-- The table of a program that was loaded elsewhere. What the binary stores stays as it is. -/
def moved (b : UInt64) (t : FunctionTable) : FunctionTable :=
  { t with functions := t.functions.map (FunctionEntry.moved b), maxPc := t.maxPc + b }

section Sorted

variable (functions : List FunctionEntry)

theorem perm_sorted : (sorted functions).toList.Perm functions := List.mergeSort_perm functions _

/-- The functions of a table are in the order of their entries. -/
theorem pairwise_sorted : (sorted functions).toList.Pairwise fun a b => a.entry ≤ b.entry :=
  pairwise_sort FunctionEntry.entry functions

end Sorted

section Lookup

/-- Nothing in the table wraps around when it is loaded `b` further on. -/
structure HasRoom (t : FunctionTable) (b : UInt64) : Prop where
  entry : ∀ f ∈ t.functions, f.entry.toNat + b.toNat < 2 ^ 64
  deltas : ∀ f ∈ t.functions, ∀ d ∈ f.deltas, d.pc.toNat + b.toNat < 2 ^ 64
  maxPc : t.maxPc.toNat + b.toNat < 2 ^ 64

variable {t : FunctionTable} {b : UInt64}

/-- Every program counter finds the function elsewhere that it found. One that would wrap around
lies behind the end of the text, and comes to lie before the first entry. -/
theorem HasRoom.find?_moved (h : t.HasRoom b) (pc : UInt64) :
    (t.moved b).find? (pc + b) = (t.find? pc).map fun (f, offset) => (f.moved b, offset) := by
  by_cases room : pc.toNat + b.toNat < 2 ^ 64
  · have found : lastBefore? (fun f => decide (pc + b < f.entry)) (t.moved b).functions =
        (lastBefore? (fun f => decide (pc < f.entry)) t.functions).map (FunctionEntry.moved b) :=
      lastBefore?_map fun f mem => decide_eq_decide.mpr (moved_lt_moved room (h.entry f mem))
    rw [find?, find?, found, apply_ite (Option.map _), Option.map_map, Option.map_map]
    refine if_congr (moved_lt_moved h.maxPc room) rfl (congrArg₂ _ (funext fun f => ?_) rfl)
    exact Prod.ext rfl (moved_sub_moved pc f.entry b)
  · have wraps : 2 ^ 64 ≤ pc.toNat + b.toNat := Nat.le_of_not_lt room
    have behind : t.maxPc < pc := by
      have := h.maxPc
      rw [UInt64.lt_iff_toNat_lt]
      omega
    have before : ∀ f ∈ (t.moved b).functions, decide (pc + b < f.entry) = true := by
      intro f mem
      obtain ⟨f, inside, rfl⟩ := Array.mem_map.mp mem
      exact decide_eq_true (moved_lt_moved_of_wraps wraps (h.entry f inside))
    rw [find?, find?, if_pos behind, lastBefore?_eq_none before]
    exact ite_self _

theorem mem_of_find? {pc offset : UInt64} {f : FunctionEntry}
    (found : t.find? pc = some (f, offset)) : f ∈ t.functions ∧ pc ≤ t.maxPc := by
  unfold find? at found
  split at found
  · cases found
  · next inside =>
    obtain ⟨g, before, same⟩ := Option.map_eq_some_iff.mp found
    cases same
    exact ⟨mem_of_lastBefore? before, UInt64.not_lt.mp inside⟩

theorem deltaAt?_moved {f : FunctionEntry} {pc : UInt64} (room : pc.toNat + b.toNat < 2 ^ 64)
    (deltas : ∀ d ∈ f.deltas, d.pc.toNat + b.toNat < 2 ^ 64) :
    (f.moved b).deltaAt? (pc + b) = f.deltaAt? pc := by
  have found : lastBefore? (fun d => decide (pc + b < d.pc)) (f.moved b).deltas =
      (lastBefore? (fun d => decide (pc < d.pc)) f.deltas).map (StackDelta.moved b) :=
    lastBefore?_map fun d mem => decide_eq_decide.mpr (moved_lt_moved room (deltas d mem))
  rw [FunctionEntry.deltaAt?, FunctionEntry.deltaAt?, found, Option.map_map]
  rfl

theorem HasRoom.frameBase?_moved (h : t.HasRoom b) (pc sp : UInt64) :
    (t.moved b).frameBase? (pc + b) sp = t.frameBase? pc sp := by
  rw [frameBase?, frameBase?, h.find?_moved]
  cases found : t.find? pc with
  | none => rfl
  | some answer =>
      obtain ⟨f, offset⟩ := answer
      obtain ⟨mem, inside⟩ := mem_of_find? found
      have room : pc.toNat + b.toNat < 2 ^ 64 :=
        Nat.lt_of_le_of_lt (Nat.add_le_add_right (UInt64.le_iff_toNat_le.mp inside) _) h.maxPc
      rw [Option.map_some]
      simp only [deltaAt?_moved room (h.deltas f mem)]

theorem hasNamed_moved (name : Text) : (t.moved b).hasNamed name = t.hasNamed name := by
  rw [hasNamed, hasNamed, moved, Array.any_map]
  rfl

theorem narrowed_moved : (t.moved b).narrowed = t.narrowed.moved b := by
  simp only [narrowed, narrowedVersion, hasNamed_moved]
  rfl

theorem HasRoom.narrowed (h : t.HasRoom b) : t.narrowed.HasRoom b := ⟨h.entry, h.deltas, h.maxPc⟩

end Lookup

end FunctionTable

end GoInspect
