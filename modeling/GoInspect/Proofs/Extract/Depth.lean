import GoInspect.Extract
import GoInspect.Proofs.GoType.Term

/-!
# How much depth objects use up

In a type without pointers, slices and maps, arrays and structs use up one level of depth each. An
object of such a type is always read, and what is read does not depend on the depth as long as there
is one for each level.
-/

namespace GoInspect

open TypeTerm

namespace Extract

/-- A type is made of basic types, by at most so many arrays and structs inside each other. -/
inductive Flat : (levels : Nat) → TypeTerm → Prop where
  | basic {levels : Nat} {kind : Primitive} : Flat levels (.basic kind)
  | array {levels n : Nat} {e : TypeTerm} : Flat levels e → Flat (levels + 1) (.array n e)
  | struct {levels : Nat} {fields : List (FieldName × TypeTerm)} :
      (∀ f ∈ fields, Flat levels f.2) → Flat (levels + 1) (.struct fields)

/-- The objects of a type are read to every depth and leave nothing behind. From a number of levels
on, the depth does not matter. -/
structure Settles (read : Reader) (levels : Nat) (t : GoType) : Prop where
  answers : ∀ address depth, ∃ v, read t address depth = pure v
  steady : ∀ address (depth depth' : UInt32), levels ≤ depth.toNat → levels ≤ depth'.toNat →
    read t address depth = read t address depth'

section Parts

variable {s : Source} {read : Reader} {t e : GoType} {levels : Nat} {depth depth' : UInt32}

theorem toNat_pred (deep : levels + 1 ≤ depth.toNat) :
    depth ≠ 0 ∧ levels ≤ (depth - 1).toNat := by
  have one : (1 : UInt32) ≤ depth := UInt32.le_iff_toNat_le.mpr (Nat.le_of_add_left_le deep)
  constructor
  · rintro rfl
    exact absurd one (by decide)
  · rw [UInt32.toNat_sub_of_le _ _ one]
    exact Nat.le_sub_one_of_lt deep

theorem elements_pure (answers : ∀ address, ∃ v, read e address depth = pure v) (stride : UInt64)
    (count : Nat) (address : UInt64) :
    ∃ found, elements read e stride depth count address = pure found := by
  induction count generalizing address with
  | zero => exact ⟨some [], rfl⟩
  | succ count ih =>
      obtain ⟨v, here⟩ := answers address
      obtain ⟨found, behind⟩ := ih (address + stride)
      rw [elements, here, pure_bind]
      split
      · exact ⟨none, rfl⟩
      · rw [behind, pure_bind]
        cases found with
        | none => exact ⟨none, rfl⟩
        | some rest => exact ⟨some (v :: rest), rfl⟩

theorem elements_congr (same : ∀ address, read e address depth = read e address depth')
    (stride : UInt64) (count : Nat) (address : UInt64) :
    elements read e stride depth count address = elements read e stride depth' count address := by
  induction count generalizing address with
  | zero => rfl
  | succ count ih => simp only [elements, same, ih]

/-- Arrays use up one level. -/
theorem Settles.arrayOf (h : Settles read levels e) (length total : UInt64) :
    (∀ address depth, ∃ v, arrayOf read e length total address depth = pure v) ∧
      ∀ address (depth depth' : UInt32), levels + 1 ≤ depth.toNat → levels + 1 ≤ depth'.toNat →
        arrayOf read e length total address depth = arrayOf read e length total address depth' := by
  constructor
  · intro address depth
    obtain ⟨found, come⟩ := elements_pure (fun a => h.answers a (depth - 1))
      (roundUp e.size e.align) length.toNat address
    rw [Extract.arrayOf]
    split
    · split
      · exact ⟨_, rfl⟩
      · dsimp only
        rw [come, pure_bind]
        cases found with
        | none => exact ⟨_, rfl⟩
        | some vs => exact ⟨_, rfl⟩
    · exact ⟨_, rfl⟩
  · intro address depth depth' deep deep'
    obtain ⟨nonzero, below⟩ := toNat_pred deep
    obtain ⟨nonzero', below'⟩ := toNat_pred deep'
    have same (a : UInt64) : read e a (depth - 1) = read e a (depth' - 1) :=
      h.steady a _ _ below below'
    simp only [Extract.arrayOf, nonzero, nonzero', if_false, elements_congr same]

theorem fields_pure {declared : List (Field (TypeRef GoType))}
    (answers : ∀ f ∈ declared, ∀ e, s.graph.deref? f.type = some e →
      ∀ address, ∃ v, read e address depth = pure v) (address : UInt64) :
    ∃ found, fields s read address depth declared = pure found := by
  induction declared with
  | nil => exact ⟨[], rfl⟩
  | cons f rest ih =>
      obtain ⟨first, later⟩ := List.forall_mem_cons.mp answers
      obtain ⟨found, behind⟩ := ih later
      rw [fields]
      cases known : s.graph.deref? f.type with
      | none => exact ⟨[], rfl⟩
      | some e =>
          obtain ⟨v, here⟩ := first e known (address + f.offset)
          dsimp only
          rw [here, pure_bind]
          split
          · exact ⟨[], rfl⟩
          · rw [behind]
            exact ⟨(f.name, v) :: found, rfl⟩

theorem fields_congr {declared : List (Field (TypeRef GoType))}
    (same : ∀ f ∈ declared, ∀ e, s.graph.deref? f.type = some e →
      ∀ address, read e address depth = read e address depth') (address : UInt64) :
    fields s read address depth declared = fields s read address depth' declared := by
  induction declared with
  | nil => rfl
  | cons f rest ih =>
      obtain ⟨first, later⟩ := List.forall_mem_cons.mp same
      rw [fields, fields]
      cases known : s.graph.deref? f.type with
      | none => rfl
      | some e => simp only [first e known, ih later]

/-- Structs use up one level. -/
theorem Settles.struct {declared : List (Field (TypeRef GoType))}
    (h : ∀ f ∈ declared, ∀ e, s.graph.deref? f.type = some e → Settles read levels e) :
    (∀ address depth, ∃ v, struct s read declared address depth = pure v) ∧
      ∀ address (depth depth' : UInt32), levels + 1 ≤ depth.toNat → levels + 1 ≤ depth'.toNat →
        struct s read declared address depth = struct s read declared address depth' := by
  constructor
  · intro address depth
    obtain ⟨found, come⟩ := fields_pure
      (fun f mem e known a => (h f mem e known).answers a (depth - 1)) address
    rw [Extract.struct]
    split
    · exact ⟨_, rfl⟩
    · split
      · exact ⟨_, rfl⟩
      · rw [come, pure_bind]
        cases found with
        | nil => exact ⟨_, rfl⟩
        | cons first rest => exact ⟨_, rfl⟩
  · intro address depth depth' deep deep'
    obtain ⟨nonzero, below⟩ := toNat_pred deep
    obtain ⟨nonzero', below'⟩ := toNat_pred deep'
    have same : fields s read address (depth - 1) declared =
        fields s read address (depth' - 1) declared :=
      fields_congr (fun f mem e known a => (h f mem e known).steady a _ _ below below') address
    simp only [Extract.struct, nonzero, nonzero', if_false, same]

end Parts

section Types

variable {s : Source} {version : VersionBound} {t : GoType}

/-- What a declared field refers to is the type of a field of the term. -/
theorem exists_denotes_of_mem {start : Nat} {fields : List (FieldName × TypeTerm)}
    {declared : List (Field (TypeRef GoType))}
    (h : DenoteFields s.graph version s.pointerWidth start fields declared)
    {f : Field (TypeRef GoType)} (mem : f ∈ declared) {e : GoType}
    (known : s.graph.deref? f.type = some e) :
    ∃ g ∈ fields, Denotes s.graph version s.pointerWidth g.2 e := by
  induction fields generalizing start declared with
  | nil =>
      cases h
      cases mem
  | cons g rest ih =>
      cases h with
      | @cons _ name type t r _ others known' denotes later =>
          obtain rfl | mem := List.mem_cons.mp mem
          · cases known.symm.trans known'
            exact ⟨_, List.mem_cons_self .., denotes⟩
          · obtain ⟨g, mem, denotes⟩ := ih later mem
            exact ⟨g, List.mem_cons_of_mem _ mem, denotes⟩

/-- Objects of flat types are settled by as many levels as their types have. -/
theorem settles_of_flat {levels : Nat} {term : TypeTerm} (flat : Flat levels term) {n : Nat}
    (enough : levels ≤ n) (denotes : Denotes s.graph version s.pointerWidth term t) :
    Settles (within s (n + 1)) levels t := by
  induction flat generalizing n t with
  | @basic _ kind =>
      cases denotes with
      | basic heads shape =>
          have reads (address : UInt64) (depth : UInt32) :
              within s (n + 1) t address depth = pure (basic s kind.1 address) := by
            rw [within, step, shape]
          exact ⟨fun address depth => ⟨_, reads address depth⟩,
            fun address depth depth' _ _ => (reads address depth).trans (reads address depth').symm⟩
  | array _ ih =>
      obtain ⟨n, rfl⟩ := Nat.exists_eq_add_of_le' (Nat.le_of_add_left_le enough)
      cases denotes with
      | @array _ _ _ e _ _ length heads shape size known denotes =>
          have reads (address : UInt64) (depth : UInt32) : within s (n + 1 + 1) t address depth =
              arrayOf (within s (n + 1)) e length t.size address depth := by
            rw [within, step, shape]
            dsimp only
            rw [known]
          obtain ⟨answers, steady⟩ :=
            (ih (Nat.le_of_succ_le_succ enough) denotes).arrayOf length t.size
          constructor
          · simpa only [reads] using answers
          · simpa only [reads] using steady
  | @struct levels _ _ ih =>
      obtain ⟨n, rfl⟩ := Nat.exists_eq_add_of_le' (Nat.le_of_add_left_le enough)
      cases denotes with
      | @struct _ _ declared heads shape denote =>
          have reads (address : UInt64) (depth : UInt32) : within s (n + 1 + 1) t address depth =
              struct s (within s (n + 1)) declared address depth := by
            rw [within, step, shape]
          have inside : ∀ f ∈ declared, ∀ e, s.graph.deref? f.type = some e →
              Settles (within s (n + 1)) levels e := by
            intro f mem e known
            obtain ⟨g, mem, denotes⟩ := exists_denotes_of_mem denote mem known
            exact ih g mem (Nat.le_of_succ_le_succ enough) denotes
          obtain ⟨answers, steady⟩ := Settles.struct inside
          constructor
          · simpa only [reads] using answers
          · simpa only [reads] using steady

end Types

end Extract

end GoInspect
