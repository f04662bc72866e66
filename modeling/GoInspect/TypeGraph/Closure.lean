import GoInspect.TypeGraph
import GoInspect.TypeGraph.Descriptor

/-!
# Types that others lead to

Starting from an offset, the descriptor there is registered, then the descriptors it leads to, and
so on in the order of the references. A type is registered before those it leads to are visited, so
that cycles end where they come back. Each registration takes a place of the section that was free,
and the offsets still to be visited only grow by a registration, so that the work ends.
-/

namespace GoInspect

namespace TypeSection

variable (s : TypeSection)

/-- The graph with the type of a descriptor at an offset. -/
def register (g : TypeGraph) (offset : UInt64) (d : Descriptor) : TypeGraph :=
  g.insert (s.low + offset) (d.type s.version)

def isFree (g : TypeGraph) (offset : Nat) : Bool := !g.contains (s.low + UInt64.ofNat offset)

/-- How many offsets inside the section are not registered. -/
def free (g : TypeGraph) : Nat := (List.range (s.data.size + 1)).countP (s.isFree g)

theorem countP_lt_countP {α : Type} {p q : α → Bool} {l : List α} (le : ∀ x, q x → p x) {a : α}
    (mem : a ∈ l) (pa : p a) (qa : q a = false) : l.countP q < l.countP p := by
  induction l with
  | nil => cases mem
  | cons b rest ih =>
    have mono : rest.countP q ≤ rest.countP p := List.countP_mono_left fun x _ => le x
    rcases List.mem_cons.mp mem with rfl | mem
    · simp only [List.countP_cons, pa, qa]
      simp only [if_true, Bool.false_eq_true, if_false]
      omega
    · have := ih mem
      have single : (if q b then 1 else 0) ≤ (if p b then 1 else 0) := by
        have := le b
        by_cases hq : q b = true
        · simp [hq, this hq]
        · simp [hq]
      simp only [List.countP_cons]
      omega

theorem contains_register (g : TypeGraph) (offset : UInt64) (d : Descriptor) (address : UInt64) :
    (s.register g offset d).contains address =
      (decide (s.low + offset = address) || g.contains address) := by
  unfold register TypeGraph.insert TypeGraph.contains
  simp only [Std.TreeMap.contains_insert]
  congr 1
  rw [Bool.eq_iff_iff]
  simp

/-- A registration takes a free place. -/
theorem free_register_lt {g : TypeGraph} {offset : UInt64} {d : Descriptor}
    (new : g.contains (s.low + offset) = false) (inside : offset.toNat ≤ s.data.size) :
    s.free (s.register g offset d) < s.free g := by
  refine countP_lt_countP (fun x h => ?_) (a := offset.toNat)
    (List.mem_range.mpr (by omega)) ?_ ?_
  · unfold isFree at *
    rw [contains_register] at h
    revert h
    cases g.contains (s.low + UInt64.ofNat x) <;> simp
  · unfold isFree
    simp [new]
  · unfold isFree
    rw [contains_register]
    simp

/-- The graph after the descriptors at the pending offsets and all that they lead to are registered.
What is registered already and what is no descriptor is passed over. -/
def visit (g : TypeGraph) (pending : List UInt64) : Logged TypeGraph :=
  match pending with
  | [] => pure g
  | offset :: rest =>
    if _new : g.contains (s.low + offset) = true then visit g rest
    else
      match _decoded : s.decode offset with
      | .error e =>
        let after := visit g rest
        ⟨after.value, e.events ++ after.events⟩
      | .ok d =>
        let after := visit (s.register g offset d) (s.successors d ++ rest)
        ⟨after.value, s.escapes d ++ after.events⟩
termination_by (s.free g, pending.length)
decreasing_by
  · exact Prod.Lex.right _ (by simp)
  · exact Prod.Lex.right _ (by simp)
  · exact Prod.Lex.left _ _
      (s.free_register_lt (by simpa using _new) (s.decode_inside _decoded))

end TypeSection

end GoInspect
