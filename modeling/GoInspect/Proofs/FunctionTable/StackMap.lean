import GoInspect.FunctionTable.Decode
import GoInspect.Proofs.Varint
import Mathlib.Data.List.Chain

/-!
# Stack maps are read as they were written

A stack map is written as pairs of a folded step of the distance and a step of the program counter,
the latter in units of the shortest instruction, and a zero byte. The zero byte cannot be mistaken
for a pair: only the first pair may leave the distance as it is, and it is the only one that stands
at the entry.
-/

namespace GoInspect

namespace FunctionTable

/-- Where a distance holds from, counted from the entry of the function, and the distance. -/
abbrev DeltaPlan := Nat × Int

/-- A step of the distance that can be written. -/
def Foldable (d : Int) : Prop := -2 ^ 31 ≤ d ∧ d < 2 ^ 31

instance decidable_foldable (d : Int) : Decidable (Foldable d) :=
  inferInstanceAs (Decidable (_ ∧ _))

/-- One pair of a stack map comes after another: further on by a number of units that can be
written, and with another distance. -/
structure Follows (unit : Nat) (before after : DeltaPlan) : Prop where
  later : before.1 < after.1
  whole : unit ∣ after.1 - before.1
  near : (after.1 - before.1) / unit < 2 ^ 32
  differs : after.2 ≠ before.2
  foldable : Foldable (after.2 - before.2)

/-- A stack map that can be written: it begins at the entry, and each pair follows the one
before. -/
structure MapFits (unit : Nat) (deltas : List DeltaPlan) : Prop where
  start : ∃ sp rest, deltas = (0, sp) :: rest ∧ Foldable (sp + 1)
  chain : deltas.IsChain (Follows unit)

/-- The step of the program counter after a pair, in units. The last one is free. -/
def stepAfter (unit last pc : Nat) : List DeltaPlan → Nat
  | [] => last
  | (next, _) :: _ => (next - pc) / unit

/-- A stack map as it is written, given the distance before its first pair. -/
def mapBytes (unit last : Nat) : (sp : Int) → List DeltaPlan → List UInt8
  | _, [] => [0]
  | sp, (pc, d) :: rest =>
    Varint.encode (Varint.fold (d - sp)) ++
      (Varint.encode (UInt32.ofNat (stepAfter unit last pc rest)) ++ mapBytes unit last d rest)

theorem mapBytes_ne_nil (unit last : Nat) (sp : Int) (deltas : List DeltaPlan) :
    mapBytes unit last sp deltas ≠ [] := by
  induction deltas generalizing sp with
  | nil => exact List.cons_ne_nil 0 []
  | cons d rest ih =>
      obtain ⟨pc, d⟩ := d
      exact List.append_ne_nil_of_right_ne_nil _
        (List.append_ne_nil_of_right_ne_nil _ (ih d))

/-- The stack deltas of a function at an entry. -/
def placed (entry : UInt64) (deltas : List DeltaPlan) : List StackDelta :=
  deltas.map fun d => ⟨entry + UInt64.ofNat d.1, d.2⟩

/-- How far a stack map reaches behind the entry, given that of its first pair. -/
def reach (unit last : Nat) : (pc : Nat) → List DeltaPlan → Nat
  | pc, [] => pc + last * unit
  | _, (next, _) :: rest => reach unit last next rest

variable {data : Bytes} {entry size : UInt64} {last : Nat}

/-- The zero byte behind the last pair ends the map. -/
theorem decodeDeltas_end {offset : Nat} {pc : UInt64} {sp : Int} (h : data.Holds offset [0])
    (behind : entry < pc) : decodeDeltas data entry size offset pc sp = [] := by
  have zero : Varint.encode 0 = [0] := Varint.groups_of_lt (by decide)
  have read := Varint.read?_encode (zero ▸ h)
  rw [decodeDeltas]
  split
  · rfl
  · next value next found =>
    obtain ⟨rfl, _⟩ := Prod.mk.inj (Option.some.inj (found.symm.trans read))
    rw [if_pos ⟨rfl, behind⟩]

/-- A step in units leads to the offset it was computed from. -/
theorem advance {pc step : Nat} (small : step < 2 ^ 32) :
    entry + UInt64.ofNat pc + (UInt32.ofNat step).toUInt64 * size =
      entry + UInt64.ofNat (pc + step * size.toNat) := by
  have word : (UInt32.ofNat step).toUInt64 = UInt64.ofNat step := by
    apply UInt64.toNat_inj.mp
    simp only [UInt32.toNat_toUInt64, UInt32.toNat_ofNat', UInt64.toNat_ofNat']
    omega
  rw [word, UInt64.ofNat_add, UInt64.ofNat_mul, UInt64.ofNat_toNat, UInt64.add_assoc]

theorem lt_advanced {n : Nat} (positive : 0 < n) (room : entry.toNat + n < 2 ^ 64) :
    entry < entry + UInt64.ofNat n := by
  rw [UInt64.lt_iff_toNat_lt, UInt64.toNat_add, UInt64.toNat_ofNat']
  omega

/-- A pair is read, and reading goes on behind it. -/
theorem decodeDeltas_pair (entry : UInt64) {offset pc : Nat} {sp d : Int} {rest : List DeltaPlan}
    (h : data.Holds offset (mapBytes size.toNat last sp ((pc, d) :: rest)))
    (foldable : Foldable (d - sp)) (goes : d = sp → pc = 0)
    (small : stepAfter size.toNat last pc rest < 2 ^ 32) :
    ∃ behind, data.Holds behind (mapBytes size.toNat last d rest) ∧
      decodeDeltas data entry size offset (entry + UInt64.ofNat pc) sp =
        ⟨entry + UInt64.ofNat pc, d⟩ :: decodeDeltas data entry size behind
          (entry + UInt64.ofNat (pc + stepAfter size.toNat last pc rest * size.toNat)) d := by
  obtain ⟨first, tail⟩ := h.append
  obtain ⟨second, tail⟩ := tail.append
  have read := Varint.read?_encode first
  have read' := Varint.read?_encode second
  refine ⟨_, tail, ?_⟩
  have more : ¬ (Varint.fold (d - sp) = 0 ∧ entry < entry + UInt64.ofNat pc) := by
    rintro ⟨zero, behind⟩
    have same := Varint.fold_eq_zero foldable.1 foldable.2 zero
    rw [goes (by omega)] at behind
    simp at behind
  have distance : sp + Varint.unfold (Varint.fold (d - sp)) = d := by
    rw [Varint.unfold_fold foldable.1 foldable.2]
    omega
  conv_lhs => rw [decodeDeltas]
  split
  · next none => cases none.symm.trans read
  · next value next found =>
    obtain ⟨rfl, rfl⟩ := Prod.mk.inj (Option.some.inj (found.symm.trans read))
    rw [if_neg more]
    split
    · next none => cases none.symm.trans read'
    · next value next found =>
      obtain ⟨rfl, rfl⟩ := Prod.mk.inj (Option.some.inj (found.symm.trans read'))
      rw [distance, advance small]

/-- From any pair on, the rest of a map is read as it was written. -/
theorem decodeDeltas_mapBytes {offset pc : Nat} {sp d : Int} {rest : List DeltaPlan}
    (h : data.Holds offset (mapBytes size.toNat last sp ((pc, d) :: rest)))
    (chain : ((pc, d) :: rest).IsChain (Follows size.toNat)) (foldable : Foldable (d - sp))
    (goes : d = sp → pc = 0) (positive : 0 < last * size.toNat) (small : last < 2 ^ 32)
    (room : entry.toNat + reach size.toNat last pc rest < 2 ^ 64) :
    decodeDeltas data entry size offset (entry + UInt64.ofNat pc) sp =
      placed entry ((pc, d) :: rest) := by
  induction rest generalizing offset pc sp d with
  | nil =>
      obtain ⟨behind, ending, read⟩ := decodeDeltas_pair entry h foldable goes small
      have behindEntry : entry < entry + UInt64.ofNat (pc + last * size.toNat) :=
        lt_advanced (Nat.add_pos_right pc positive) room
      rw [read]
      exact congrArg _ (decodeDeltas_end ending behindEntry)
  | cons next rest ih =>
      obtain ⟨pc', d'⟩ := next
      obtain ⟨follows, chain⟩ := List.isChain_cons_cons.mp chain
      have later := follows.later
      obtain ⟨behind, tail, read⟩ :=
        decodeDeltas_pair entry h foldable goes follows.near
      have next : pc + stepAfter size.toNat last pc ((pc', d') :: rest) * size.toNat = pc' := by
        rw [stepAfter, Nat.div_mul_cancel follows.whole]
        omega
      rw [read, next, ih tail chain follows.foldable (fun same => absurd same follows.differs) room]
      rfl

/-- The stack map of a function is read as it was written. -/
theorem stackMap_eq {offset : Nat} {unit : UInt32} {deltas : List DeltaPlan}
    (fits : MapFits unit.toNat deltas)
    (h : data.Holds offset (mapBytes unit.toNat last (-1) deltas))
    (positive : 0 < last * unit.toNat) (small : last < 2 ^ 32)
    (room : entry.toNat + reach unit.toNat last 0 deltas < 2 ^ 64) :
    stackMap data offset entry unit = placed entry deltas := by
  obtain ⟨sp, rest, rfl, foldable⟩ := fits.start
  have width : unit.toUInt64.toNat = unit.toNat := UInt32.toNat_toUInt64 unit
  rw [← width] at h room positive
  have chain := fits.chain
  rw [← width] at chain
  have read := decodeDeltas_mapBytes h chain foldable (fun _ => rfl) positive small room
  have start : entry + UInt64.ofNat 0 = entry := UInt64.add_zero entry
  rw [start] at read
  exact read

end FunctionTable

end GoInspect
