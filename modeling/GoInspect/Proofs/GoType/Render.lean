import GoInspect.GoType.Render
import GoInspect.Proofs.TypeGraph.Basic
import GoInspect.Proofs.Traversal
import Mathlib.Data.Set.Card
import Mathlib.Logic.Relation

/-!
# When the text of a type is finite

The elements of slices and maps are shown at the depth of the type itself, all others one level
further down. The text of a node of a graph is therefore finite unless a slice or a map is met that
contains itself through nothing but slices and maps. Where it is finite, the steps inside each other
stay below the bound that rendering sets, so that the bound never cuts a text off.
-/

namespace GoInspect

open Relation

namespace Shape

variable {ρ : Type}

/-- The references that are shown at the same depth. -/
def flatRefs : Shape ρ → List ρ
  | slice elem => [elem]
  | map key value _ => [key, value]
  | _ => []

/-- The references that are shown one level further down. -/
def nestedRefs : Shape ρ → List ρ
  | array elem _ _ => [elem]
  | chan elem _ => [elem]
  | func inputs outputs _ => inputs ++ outputs
  | interface methods => methods.map Method.type
  | pointer elem => [elem]
  | struct fields => fields.map Field.type
  | _ => []

end Shape

namespace GoType

/-- A type is shown inside another one at the same depth. -/
def Flat (g : TypeGraph) (t e : GoType) : Prop := ∃ r ∈ t.shape.flatRefs, g.deref? r = some e

/-- A type at a depth whose text is part of that of another type at another depth. -/
inductive Shows (g : TypeGraph) : GoType × UInt32 → GoType × UInt32 → Prop where
  | flat {t e : GoType} {depth : UInt32} : Flat g t e → Shows g (t, depth) (e, depth)
  | nested {t e : GoType} {r : TypeRef GoType} {depth : UInt32} : r ∈ t.shape.nestedRefs →
      g.deref? r = some e → depth ≠ 0 → Shows g (t, depth) (e, depth - 1)

variable {g : TypeGraph} {t e : GoType} {depth : UInt32}

section Step

variable {render render' : GoType → UInt32 → Option Text}

theorem isSome_renderRef_iff {r : TypeRef GoType} :
    (renderRef g render depth r).isSome ↔ ∀ e, g.deref? r = some e → (render e depth).isSome := by
  rw [renderRef]
  cases g.deref? r <;> simp

theorem renderRef_congr {r : TypeRef GoType}
    (same : ∀ e, g.deref? r = some e → render e depth = render' e depth) :
    renderRef g render depth r = renderRef g render' depth r := by
  rw [renderRef, renderRef]
  cases found : g.deref? r with
  | none => rfl
  | some e => exact same e found

theorem mem_knownMethods_iff {methods : List (Method (TypeRef GoType))} {x : Text × GoType} :
    x ∈ knownMethods g methods ↔
      ∃ m ∈ methods, m.name = x.1 ∧ g.deref? m.type = some x.2 := by
  obtain ⟨name, e⟩ := x
  simp only [knownMethods, List.mem_filterMap, Option.map_eq_some_iff, Prod.mk.injEq]
  constructor
  · rintro ⟨m, mem, e', found, rfl, rfl⟩
    exact ⟨m, mem, rfl, found⟩
  · rintro ⟨m, mem, rfl, found⟩
    exact ⟨m, mem, e, found, rfl, rfl⟩

/-- The text depends on nothing but the texts of the types inside. -/
theorem renderStep_congr
    (same : ∀ e depth', Shows g (t, depth) (e, depth') → render e depth' = render' e depth') :
    renderStep g render t depth = renderStep g render' t depth := by
  have flat : ∀ r ∈ t.shape.flatRefs,
      renderRef g render depth r = renderRef g render' depth r := by
    intro r mem
    exact renderRef_congr fun e found => same e depth (.flat ⟨r, mem, found⟩)
  have nested : depth ≠ 0 → ∀ r ∈ t.shape.nestedRefs,
      renderRef g render (depth - 1) r = renderRef g render' (depth - 1) r := by
    intro deep r mem
    exact renderRef_congr fun e found => same e (depth - 1) (.nested mem found deep)
  rw [renderStep, renderStep]
  cases shape : t.shape with
  | basic kind => rfl
  | slice elem =>
      rw [shape] at flat
      simp only [flat elem (List.mem_singleton_self _)]
  | map key value bucket =>
      rw [shape] at flat
      simp only [flat key (List.mem_cons_self ..),
        flat value (List.mem_cons_of_mem _ (List.mem_singleton_self _))]
  | pointer elem =>
      cases found : g.deref? elem with
      | none => simp only [found]
      | some e =>
          by_cases zero : depth = 0
          · simp only [found, zero, if_true]
          · have mem : elem ∈ t.shape.nestedRefs := by
              rw [shape]
              exact List.mem_singleton_self _
            have inside := same e (depth - 1) (.nested mem found zero)
            simp only [found, zero, if_false, inside]
  | array elem sliceType length =>
      rw [shape] at nested
      by_cases zero : depth = 0
      · simp only [zero, if_true]
      · simp only [zero, if_false, nested zero elem (List.mem_singleton_self _)]
  | chan elem direction =>
      rw [shape] at nested
      by_cases zero : depth = 0
      · simp only [zero, if_true]
      · simp only [zero, if_false, nested zero elem (List.mem_singleton_self _)]
  | func inputs outputs variadic =>
      rw [shape] at nested
      by_cases zero : depth = 0
      · simp only [zero, if_true]
      · have ins := mapM_congr fun r mem => nested zero r (List.mem_append_left outputs mem)
        have outs := mapM_congr fun r mem => nested zero r (List.mem_append_right inputs mem)
        simp only [zero, if_false, ins, outs]
  | interface methods =>
      by_cases zero : depth = 0
      · simp only [zero, if_true]
      · have inside : ∀ x ∈ knownMethods g methods,
            render x.2 (depth - 1) = render' x.2 (depth - 1) := by
          intro x mem
          obtain ⟨m, member, _, found⟩ := mem_knownMethods_iff.mp mem
          have ref : m.type ∈ t.shape.nestedRefs := by
            rw [shape]
            exact List.mem_map_of_mem member
          exact same x.2 (depth - 1) (.nested ref found zero)
        have shown := mapM_congr fun (x : Text × GoType) mem =>
          congrArg (Option.map fun signature => x.1 ++ signature.withoutPrefix (utf8 "func"))
            (inside x mem)
        simp only [zero, if_false]
        rw [shown]
  | struct fields =>
      rw [shape] at nested
      by_cases zero : depth = 0
      · simp only [zero, if_true]
      · have shown := mapM_congr fun (f : Field (TypeRef GoType)) mem =>
          congrArg (Option.map fun e => f.name ++ utf8 " " ++ e)
            (nested zero f.type (List.mem_map_of_mem mem))
        simp only [zero, if_false, shown]

theorem isSome_bind_map {α β γ : Type} {x : Option α} {y : Option β} {f : α → β → γ} :
    (x.bind fun a => y.map (f a)).isSome ↔ x.isSome ∧ y.isSome := by
  cases x <;> simp

theorem isSome_renderStep_iff_refs : (renderStep g render t depth).isSome ↔
    (∀ r ∈ t.shape.flatRefs, (renderRef g render depth r).isSome) ∧
      (depth ≠ 0 → ∀ r ∈ t.shape.nestedRefs, (renderRef g render (depth - 1) r).isSome) := by
  rw [renderStep]
  cases shape : t.shape with
  | basic kind => simp [Shape.flatRefs, Shape.nestedRefs]
  | slice elem => simp [Shape.flatRefs, Shape.nestedRefs]
  | map key value bucket => simp [Shape.flatRefs, Shape.nestedRefs, isSome_bind_map]
  | pointer elem =>
      by_cases zero : depth = 0
      · cases found : g.deref? elem <;> simp [Shape.flatRefs, found, zero]
      · cases found : g.deref? elem <;>
          simp [Shape.flatRefs, Shape.nestedRefs, renderRef, found, zero]
  | array elem sliceType length =>
      by_cases zero : depth = 0 <;> simp [Shape.flatRefs, Shape.nestedRefs, zero]
  | chan elem direction =>
      by_cases zero : depth = 0 <;> simp [Shape.flatRefs, Shape.nestedRefs, zero]
  | func inputs outputs variadic =>
      by_cases zero : depth = 0
      · simp [Shape.flatRefs, zero]
      · simp [Shape.flatRefs, Shape.nestedRefs, zero, isSome_bind_map, isSome_mapM, or_imp,
          forall_and]
  | interface methods =>
      by_cases zero : depth = 0
      · simp [Shape.flatRefs, zero]
      · have known : (∀ x ∈ knownMethods g methods, (render x.2 (depth - 1)).isSome) ↔
            ∀ m ∈ methods, (renderRef g render (depth - 1) m.type).isSome := by
          constructor
          · intro shown m mem
            refine isSome_renderRef_iff.mpr fun e found => ?_
            exact shown (m.name, e) (mem_knownMethods_iff.mpr ⟨m, mem, rfl, found⟩)
          · intro shown x mem
            obtain ⟨m, member, _, found⟩ := mem_knownMethods_iff.mp mem
            exact isSome_renderRef_iff.mp (shown m member) x.2 found
        simp only [zero, if_false, Option.isSome_map, isSome_mapM, known]
        simp [Shape.flatRefs, Shape.nestedRefs, zero]
  | struct fields =>
      by_cases zero : depth = 0
      · simp [Shape.flatRefs, zero]
      · by_cases none : fields = []
        · simp [Shape.flatRefs, Shape.nestedRefs, zero, none]
        · have some : fields.isEmpty = false := by simpa using none
          simp only [zero, some, if_false, Bool.false_eq_true, Option.isSome_map, isSome_mapM]
          simp [Shape.flatRefs, Shape.nestedRefs, zero]

/-- The text is finite exactly where those of the types inside are. -/
theorem isSome_renderStep_iff : (renderStep g render t depth).isSome ↔
    ∀ e depth', Shows g (t, depth) (e, depth') → (render e depth').isSome := by
  rw [isSome_renderStep_iff_refs]
  constructor
  · rintro ⟨flat, nested⟩ e depth' shows
    cases shows with
    | flat inside =>
        obtain ⟨r, mem, found⟩ := inside
        exact isSome_renderRef_iff.mp (flat r mem) e found
    | nested mem found deep => exact isSome_renderRef_iff.mp (nested deep _ mem) e found
  · intro inside
    constructor
    · intro r mem
      exact isSome_renderRef_iff.mpr fun e found => inside e depth (.flat ⟨r, mem, found⟩)
    · intro deep r mem
      exact isSome_renderRef_iff.mpr fun e found => inside e (depth - 1) (.nested mem found deep)

end Step

section Nesting

/-- Types at a depth. -/
abbrev Place := GoType × UInt32

variable {c c' : Place} {n : Nat}

/-- The text needs at most so many steps inside each other. -/
def RendersWithin (g : TypeGraph) (n : Nat) (c : Place) : Prop :=
  (renderWithin g n c.1 c.2).isSome

theorem rendersWithin_succ_iff :
    RendersWithin g (n + 1) c ↔ ∀ c', Shows g c c' → RendersWithin g n c' := by
  obtain ⟨t, depth⟩ := c
  constructor
  · intro finite c' shows
    exact isSome_renderStep_iff.mp finite c'.1 c'.2 shows
  · intro inside
    exact isSome_renderStep_iff.mpr fun e depth' shows => inside (e, depth') shows

theorem not_rendersWithin_zero : ¬ RendersWithin g 0 c := by
  intro finite
  cases finite

/-- More steps do not change a text. -/
theorem RendersWithin.eq_succ (h : RendersWithin g n c) :
    renderWithin g (n + 1) c.1 c.2 = renderWithin g n c.1 c.2 := by
  induction n generalizing c with
  | zero => exact absurd h not_rendersWithin_zero
  | succ n ih =>
      apply renderStep_congr
      intro e depth' shows
      exact ih (rendersWithin_succ_iff.mp h (e, depth') shows)

theorem RendersWithin.eq_of_le {n' : Nat} (h : RendersWithin g n c) (le : n ≤ n') :
    renderWithin g n' c.1 c.2 = renderWithin g n c.1 c.2 := by
  induction n', le using Nat.le_induction with
  | base => rfl
  | succ n' _ ih =>
      have more : RendersWithin g n' c := by
        rw [RendersWithin, ih]
        exact h
      rw [more.eq_succ, ih]

theorem RendersWithin.mono {n' : Nat} (h : RendersWithin g n c) (le : n ≤ n') :
    RendersWithin g n' c := by
  rw [RendersWithin, h.eq_of_le le]
  exact h

theorem RendersWithin.reaches (h : RendersWithin g n c) (reaches : ReflTransGen (Shows g) c c') :
    RendersWithin g n c' := by
  induction reaches with
  | refl => exact h
  | tail _ shows ih => exact rendersWithin_succ_iff.mp (ih.mono (Nat.le_succ n)) _ shows

/-- What is shown inside takes fewer steps. -/
theorem RendersWithin.inside (h : RendersWithin g (n + 1) c) (inside : TransGen (Shows g) c c') :
    RendersWithin g n c' := by
  obtain ⟨next, shows, reaches⟩ := TransGen.head'_iff.mp inside
  exact (rendersWithin_succ_iff.mp h next shows).reaches reaches

theorem RendersWithin.not_inside (h : RendersWithin g n c) : ¬ TransGen (Shows g) c c := by
  intro inside
  induction n with
  | zero => exact not_rendersWithin_zero h
  | succ n ih => exact ih (h.inside inside)

/-- What a type contains at its own depth is shown inside it. -/
theorem transGen_shows (h : TransGen (Flat g) t e) : TransGen (Shows g) (t, depth) (e, depth) := by
  induction h with
  | single flat => exact .single (.flat flat)
  | tail _ flat ih => exact ih.tail (.flat flat)

/-- A type is reached that contains itself at its own depth. -/
def ReachesLoop (g : TypeGraph) (c : Place) : Prop :=
  ∃ c', ReflTransGen (Shows g) c c' ∧ TransGen (Flat g) c'.1 c'.1

theorem RendersWithin.not_reachesLoop (h : RendersWithin g n c) : ¬ ReachesLoop g c := by
  rintro ⟨c', reaches, loop⟩
  exact (h.reaches reaches).not_inside (transGen_shows loop)

end Nesting

section Bound

theorem mem_refs_of_mem_flatRefs {ρ : Type} {shape : Shape ρ} {r : ρ} (mem : r ∈ shape.flatRefs) :
    r ∈ shape.refs := by
  cases shape with
  | slice elem => exact mem
  | map key value bucket =>
      have start : [key, value] ⊆ [key, value, bucket] :=
        List.cons_subset_cons key (List.cons_subset_cons value (List.nil_subset _))
      exact start mem
  | _ => cases mem

theorem mem_refs_of_mem_nestedRefs {ρ : Type} {shape : Shape ρ} {r : ρ}
    (mem : r ∈ shape.nestedRefs) : r ∈ shape.refs := by
  cases shape with
  | array elem sliceType length => exact List.mem_cons.mpr (.inl (List.mem_singleton.mp mem))
  | basic kind => cases mem
  | map key value bucket => cases mem
  | slice elem => cases mem
  | _ => exact mem

variable {h : TypeGraph} {c c' : Place}

theorem Shows.isNode (shows : Shows h.resolved c c') (node : h.resolved.IsNode c.1) :
    h.resolved.IsNode c'.1 := by
  cases shows with
  | flat inside =>
      obtain ⟨r, mem, found⟩ := inside
      exact node.deref? (mem_refs_of_mem_flatRefs mem) found
  | nested mem found _ => exact node.deref? (mem_refs_of_mem_nestedRefs mem) found

theorem isNode_of_flat (node : h.resolved.IsNode t) (flat : Flat h.resolved t e) :
    h.resolved.IsNode e := by
  have shows : Shows h.resolved (t, 0) (e, 0) := .flat flat
  exact shows.isNode node

/-- The types that are shown inside a type at its own depth, at any level. -/
def parts (g : TypeGraph) (t : GoType) : Set GoType := {e | TransGen (Flat g) t e}

theorem parts_subset (node : h.resolved.IsNode t) :
    parts h.resolved t ⊆ {e | h.resolved.IsNode e} := by
  intro e inside
  induction inside with
  | single flat => exact isNode_of_flat node flat
  | tail _ flat ih => exact isNode_of_flat ih flat

theorem ncard_parts_le (node : h.resolved.IsNode t) :
    (parts h.resolved t).ncard ≤ h.resolved.size :=
  (Set.ncard_le_ncard (parts_subset node) h.resolved.finite_isNode).trans h.resolved.ncard_isNode_le

/-- Without a loop, less is shown inside what is shown inside. -/
theorem ncard_parts_lt (node : h.resolved.IsNode t) (flat : Flat h.resolved t e)
    (loopless : ¬ TransGen (Flat h.resolved) e e) :
    (parts h.resolved e).ncard < (parts h.resolved t).ncard := by
  have finite := h.resolved.finite_isNode.subset (parts_subset node)
  refine Set.ncard_lt_ncard ?_ finite
  refine ⟨fun _ inside => .head flat inside, fun all => loopless (all ?_)⟩
  exact .single flat

theorem toNat_pred (deep : depth ≠ 0) : (depth - 1).toNat + 1 = depth.toNat := by
  have positive : 0 < depth.toNat := by
    apply Nat.pos_of_ne_zero
    intro zero
    exact deep (UInt32.toNat_inj.mp zero)
  have one : (1 : UInt32) ≤ depth := UInt32.le_iff_toNat_le.mpr positive
  rw [UInt32.toNat_sub_of_le _ _ one]
  exact Nat.sub_add_cancel positive

/-- The number of nodes bounds how many types are shown inside each other before depth is used up,
and the depth how often that may happen. -/
theorem rendersWithin_of_not_reachesLoop {n : Nat} (node : h.resolved.IsNode c.1)
    (loopless : ¬ ReachesLoop h.resolved c)
    (room : c.2.toNat * (h.resolved.size + 1) + (parts h.resolved c.1).ncard < n) :
    RendersWithin h.resolved n c := by
  induction n generalizing c with
  | zero => omega
  | succ n ih =>
      refine rendersWithin_succ_iff.mpr fun c' shows => ?_
      have node' := shows.isNode node
      refine ih node' ?_ ?_
      · rintro ⟨place, reaches, loop⟩
        exact loopless ⟨place, .head shows reaches, loop⟩
      · have few := ncard_parts_le node'
        cases shows with
        | @flat t e depth flat =>
            have loopless' : ¬ TransGen (Flat h.resolved) e e := by
              intro loop
              exact loopless ⟨(e, depth), .single (.flat flat), loop⟩
            have less := ncard_parts_lt node flat loopless'
            dsimp only at room less ⊢
            omega
        | nested _ _ deep =>
            dsimp only at room few ⊢
            rw [← toNat_pred deep, Nat.add_mul, Nat.one_mul] at room
            omega

end Bound

/-- Showing a node of a graph comes to an end exactly when no slice or map is met that contains
itself through nothing but slices and maps. Where it ends, the bound on the steps does not
matter. -/
theorem render_ends_iff {h : TypeGraph} {address : UInt64}
    (node : h.resolved.find? address = some t) (depth : UInt32) :
    ((∃ n text, renderWithin h.resolved n t depth = some text) ↔
      ¬ ∃ c, ReflTransGen (Shows h.resolved) (t, depth) c ∧ TransGen (Flat h.resolved) c.1 c.1) ∧
    ∀ n text, renderWithin h.resolved n t depth = some text →
      t.render? h.resolved depth = some text := by
  have node : h.resolved.IsNode t := ⟨address, node⟩
  have bounded : ¬ ReachesLoop h.resolved (t, depth) →
      RendersWithin h.resolved (t.renderLimit h.resolved depth) (t, depth) := by
    intro loopless
    refine rendersWithin_of_not_reachesLoop node loopless ?_
    have few := ncard_parts_le node
    rw [renderLimit, Nat.add_mul, Nat.one_mul]
    dsimp only
    omega
  constructor
  · constructor
    · rintro ⟨n, text, finite⟩
      exact RendersWithin.not_reachesLoop (Option.isSome_of_eq_some finite)
    · intro loopless
      obtain ⟨text, finite⟩ := Option.isSome_iff_exists.mp (bounded loopless)
      exact ⟨_, text, finite⟩
  · intro n text finite
    have within : RendersWithin h.resolved n (t, depth) := Option.isSome_of_eq_some finite
    have most := bounded within.not_reachesLoop
    obtain le | le := Nat.le_total n (t.renderLimit h.resolved depth)
    · exact (within.eq_of_le le).trans finite
    · exact (most.eq_of_le le).symm.trans finite

/-- A slice type that is its own element. -/
def ownSlice : TypeGraph :=
  .insert .empty 0x1000
    (.ofAddresses { size := 24, align := 8, kindByte := 23, name := utf8 "main.T" } ⟨20, 20⟩
      (.slice 0x1000))

/-- The slice type once its references are resolved. -/
def ownSliceType : GoType :=
  .mk { size := 24, align := 8, kindByte := 23, name := utf8 "main.T" } ⟨20, 20⟩
    (.slice ⟨0x1000, some (.node 0x1000)⟩)

theorem find?_ownSlice : ownSlice.resolved.find? 0x1000 = some ownSliceType := by
  rfl

theorem renderWithin_ownSlice : ownSlice.resolved.find? 0x1000 = some ownSliceType ∧
    ∀ n, renderWithin ownSlice.resolved n ownSliceType 0 = none := by
  refine ⟨find?_ownSlice, fun n => ?_⟩
  have flat : Flat ownSlice.resolved ownSliceType ownSliceType :=
    ⟨_, List.mem_singleton_self _, find?_ownSlice⟩
  by_contra some
  obtain ⟨text, finite⟩ := Option.ne_none_iff_exists'.mp some
  exact (render_ends_iff find?_ownSlice 0).1.mp ⟨n, text, finite⟩
    ⟨(ownSliceType, 0), .refl, .single flat⟩

end GoType

end GoInspect
