import GoInspect.Proofs.Extract.Steps
import Mathlib.Data.Finite.Prod
import Mathlib.Data.Fintype.Powerset
import Mathlib.Data.Set.Finite.Lattice
import Mathlib.Order.OrderIsoNat
import Mathlib.Order.Preorder.Finite

/-!
# When extraction ends

An object that is read for ever asks for one that is read for ever. Along such a chain addresses are
visited only finitely often and depth cannot shrink for ever, so that maps come again and again; and
as there are finitely many types, addresses and depths, one of them comes again just as it was. So
extraction ends unless a map is read inside itself, with the depth and the visited addresses it
started with.
-/

namespace GoInspect

namespace Extract

open Relation

variable {s : Source}

section Types

/-- A type that was built from its name holds the types it refers to. -/
def Holds (t t' : GoType) : Prop := ∃ r ∈ t.shape.refs, r.target = some (.built t')

theorem sizeOf_ref_lt {shape : Shape (TypeRef GoType)} {r : TypeRef GoType}
    (mem : r ∈ shape.refs) : sizeOf r < sizeOf shape := by
  cases shape with
  | basic kind => cases mem
  | array elem sliceType length =>
      simp only [Shape.refs, List.mem_cons, List.not_mem_nil, or_false] at mem
      rcases mem with rfl | rfl <;> simp only [Shape.array.sizeOf_spec] <;> omega
  | chan elem direction =>
      obtain rfl := List.mem_singleton.mp mem
      simp only [Shape.chan.sizeOf_spec]
      omega
  | func inputs outputs variadic =>
      simp only [Shape.func.sizeOf_spec]
      obtain mem | mem := List.mem_append.mp mem
      · have := List.sizeOf_lt_of_mem mem
        omega
      · have := List.sizeOf_lt_of_mem mem
        omega
  | interface methods =>
      obtain ⟨⟨name, type⟩, inside, rfl⟩ := List.mem_map.mp mem
      have outer := List.sizeOf_lt_of_mem inside
      simp only [Shape.interface.sizeOf_spec, Method.mk.sizeOf_spec] at outer ⊢
      omega
  | map key value bucket =>
      simp only [Shape.refs, List.mem_cons, List.not_mem_nil, or_false] at mem
      rcases mem with rfl | rfl | rfl <;> simp only [Shape.map.sizeOf_spec] <;> omega
  | pointer elem =>
      obtain rfl := List.mem_singleton.mp mem
      simp only [Shape.pointer.sizeOf_spec]
      omega
  | slice elem =>
      obtain rfl := List.mem_singleton.mp mem
      simp only [Shape.slice.sizeOf_spec]
      omega
  | struct fields =>
      obtain ⟨⟨name, type, offset⟩, inside, rfl⟩ := List.mem_map.mp mem
      have outer := List.sizeOf_lt_of_mem inside
      simp only [Shape.struct.sizeOf_spec, Field.mk.sizeOf_spec] at outer ⊢
      omega

theorem Holds.sizeOf_lt {t t' : GoType} (h : Holds t t') : sizeOf t' < sizeOf t := by
  obtain ⟨r, mem, target⟩ := h
  have inside := sizeOf_ref_lt mem
  obtain ⟨header, version, shape⟩ := t
  obtain ⟨address, target⟩ := r
  subst target
  simp only [GoType.shape, GoType.mk.sizeOf_spec, TypeRef.mk.sizeOf_spec, Option.some.sizeOf_spec,
    TypeHandle.built.sizeOf_spec] at *
  omega

/-- A type holds finitely many types, at any level. -/
theorem finite_held (t : GoType) : {t' | ReflTransGen Holds t t'}.Finite := by
  induction size : sizeOf t using Nat.strong_induction_on generalizing t with
  | _ n ih =>
      have direct : {u | Holds t u}.Finite := by
        refine (List.finite_toSet (t.shape.refs.filterMap fun r => r.target.bind fun
          | .built u => some u
          | .node _ => none)).subset ?_
        rintro u ⟨r, mem, target⟩
        exact List.mem_filterMap.mpr ⟨r, mem, by rw [target]; rfl⟩
      have below := direct.biUnion fun u held => ih _ (size ▸ Holds.sizeOf_lt held) u rfl
      refine (below.insert t).subset ?_
      intro t' held
      obtain rfl | ⟨u, first, rest⟩ := held.cases_head
      · exact Set.mem_insert t _
      · exact Set.mem_insert_of_mem t (Set.mem_biUnion first rest)

instance finite_uInt64 : Finite UInt64 := .of_injective UInt64.toFin fun _ _ => UInt64.toFin_inj.mp

instance finite_uInt32 : Finite UInt32 := .of_injective UInt32.toFin fun _ _ => UInt32.toFin_inj.mp

/-- Finitely many types can be met from a type on: those of the graph, and those that are held by
types of the graph or by the type itself. -/
theorem finite_met (s : Source) (t : GoType) : {t' | ReflTransGen (Refers s) t t'}.Finite := by
  have nodes : {u | ∃ place, s.graph.find? place = some u}.Finite := by
    refine ((Set.finite_range s.graph.find?).preimage
      (Option.some_injective GoType).injOn).subset ?_
    rintro u ⟨place, found⟩
    exact ⟨place, found⟩
  refine ((nodes.insert t).biUnion fun u _ => finite_held u).subset ?_
  intro t' met
  induction met with
  | refl => exact Set.mem_biUnion (Set.mem_insert t _) .refl
  | @tail u v _ refers ih =>
      obtain ⟨root, known, held⟩ := Set.mem_iUnion₂.mp ih
      have node {place : UInt64} (found : s.graph.find? place = some v) :
          v ∈ ⋃ root ∈ insert t {u | ∃ place, s.graph.find? place = some u},
            {t' | ReflTransGen Holds root t'} :=
        Set.mem_biUnion (Set.mem_insert_of_mem t ⟨place, found⟩) .refl
      obtain ⟨r, mem, element⟩ | ⟨place, found⟩ := refers
      · obtain ⟨handle, target, found⟩ := Option.bind_eq_some_iff.mp element
        cases handle with
        | node place => exact node found
        | built type =>
            cases found
            exact Set.mem_biUnion known (held.tail ⟨r, mem, target⟩)
      · exact node found

end Types

namespace Call

variable {c c' m m' : Call}

/-- Reading the object ends with steps nested at most so deep. -/
def EndsWithin (s : Source) (n : Nat) (c : Call) : Prop :=
  ∃ outcome, c.run (within s n) = some outcome

/-- Reading the object ends. -/
def Ends (s : Source) (c : Call) : Prop := ∃ n, c.EndsWithin s n

def IsMap (c : Call) : Prop := c.type.kind = .map

theorem EndsWithin.mono {n n' : Nat} (h : c.EndsWithin s n) (le : n ≤ n') : c.EndsWithin s n' := by
  obtain ⟨outcome, come⟩ := h
  exact ⟨outcome, within_extends le _ _ _ _ _ come⟩

/-- What is asked for takes less nesting than what asks for it. -/
theorem EndsWithin.calls {n : Nat} (h : c.EndsWithin s (n + 1)) (calls : Calls s c c') :
    c'.EndsWithin s n := by
  obtain ⟨outcome, come⟩ := h
  exact Asks.answered calls come

theorem EndsWithin.reaches {n : Nat} (h : c.EndsWithin s n)
    (reaches : ReflTransGen (Calls s) c c') : c'.EndsWithin s n := by
  induction reaches with
  | refl => exact h
  | tail _ calls ih => exact (ih.mono (Nat.le_succ n)).calls calls

theorem EndsWithin.inside {n : Nat} (h : c.EndsWithin s (n + 1))
    (inside : TransGen (Calls s) c c') : c'.EndsWithin s n := by
  obtain ⟨next, calls, reaches⟩ := TransGen.head'_iff.mp inside
  exact (h.calls calls).reaches reaches

theorem Again.symm (h : c.Again c') : c'.Again c :=
  ⟨h.type.symm, h.address.symm, h.depth.symm, h.seen.symm⟩

/-- How deep the steps are nested does not depend on events. -/
theorem EndsWithin.again {n : Nat} (h : c.EndsWithin s n) (again : c.Again c') :
    c'.EndsWithin s n := by
  obtain ⟨type, address, depth, trace⟩ := c
  obtain ⟨type', address', depth', trace'⟩ := c'
  obtain ⟨rfl, rfl, rfl, seen⟩ := again
  obtain ⟨outcome, come⟩ := h
  have same : view (within s n type address depth trace) =
      view (within s n type address depth trace') := (regular_within s n).congr seen
  obtain ⟨none, _⟩ | ⟨v, _, after, _, come', _⟩ := cases_of_view_eq same
  · cases none.symm.trans come
  · exact ⟨(v, after), come'⟩

/-- Nothing that ends is read again inside itself: it would take less nesting than it takes. -/
theorem EndsWithin.not_again {n : Nat} (h : m.EndsWithin s n)
    (inside : TransGen (Calls s) m m') : ¬ m.Again m' := by
  intro again
  induction n with
  | zero =>
      obtain ⟨_, none⟩ := h
      cases none
  | succ n ih => exact ih ((h.inside inside).again again.symm)

/-- What never ends asks for something that never ends. -/
theorem exists_calls_of_not_ends (h : ¬ c.Ends s) :
    ∃ c', Calls s c c' ∧ ¬ c'.Ends s ∧
      Allows s c.type c.depth c.trace.seen c'.type c'.depth c'.trace.seen := by
  have never : ∀ n, step s (within s n) c.type c.address c.depth c.trace = none := by
    intro n
    by_contra some
    obtain ⟨outcome, come⟩ := Option.ne_none_iff_exists'.mp some
    exact h ⟨n + 1, outcome, come⟩
  obtain ⟨c', calls, fits, none⟩ :=
    (sequential_step c.type c.address c.depth c.trace.seen).stuck (regular_within s)
      (fun le => within_extends le) rfl never
  refine ⟨c', calls, ?_, fits⟩
  rintro ⟨n, outcome, come⟩
  cases (none n).symm.trans come

end Call

/-- Readings inside each other, without end. -/
structure Descent (s : Source) (f : Nat → Call) : Prop where
  calls : ∀ i, Calls s (f i) (f (i + 1))
  allows : ∀ i, Allows s (f i).type (f i).depth (f i).trace.seen (f (i + 1)).type
    (f (i + 1)).depth (f (i + 1)).trace.seen

theorem exists_descent {c : Call} (h : ¬ c.Ends s) : ∃ f, f 0 = c ∧ Descent s f := by
  choose next calls never allows using
    fun c : {c : Call // ¬ c.Ends s} => Call.exists_calls_of_not_ends c.2
  let f : Nat → {c : Call // ¬ c.Ends s} :=
    fun i => i.rec ⟨c, h⟩ fun _ c => ⟨next c, never c⟩
  exact ⟨fun i => (f i).1, rfl, fun i => calls (f i), fun i => allows (f i)⟩

namespace Descent

variable {f : Nat → Call}

theorem reaches (d : Descent s f) {i j : Nat} (le : i ≤ j) :
    ReflTransGen (Calls s) (f i) (f j) := by
  induction j, le using Nat.le_induction with
  | base => exact .refl
  | succ j _ ih => exact ih.tail (d.calls j)

theorem inside (d : Descent s f) {i j : Nat} (lt : i < j) : TransGen (Calls s) (f i) (f j) :=
  .head' (d.calls i) (d.reaches lt)

theorem met (d : Descent s f) (i : Nat) : ReflTransGen (Refers s) (f 0).type (f i).type := by
  induction i with
  | zero => exact .refl
  | succ i ih => exact ih.tail (d.allows i).refers

/-- From some point on no new address is visited. -/
theorem seen_const (d : Descent s f) :
    ∃ n, ∀ i, n ≤ i → (f i).trace.seen = (f n).trace.seen := by
  have grows : Monotone fun i => (f i).trace.seen :=
    monotone_nat_of_le_succ fun i => (d.allows i).grows
  obtain ⟨n, const⟩ := WellFoundedGT.monotone_chain_condition ⟨_, grows⟩
  exact ⟨n, fun i le => (const i le).symm⟩

/-- From there on maps come again and again, because all other objects use up depth. -/
theorem exists_map (d : Descent s f) {n : Nat}
    (const : ∀ i, n ≤ i → (f i).trace.seen = (f n).trace.seen) (k : Nat) :
    ∃ i, k ≤ i ∧ (f i).IsMap := by
  by_contra none
  have shrinks : ∀ j, (f (max n k + j)).depth.toNat + j ≤ (f (max n k)).depth.toNat := by
    intro j
    induction j with
    | zero => exact Nat.le_refl _
    | succ j ih =>
        have noMap : (f (max n k + j)).type.kind ≠ .map := by
          intro map
          exact none ⟨max n k + j, by omega, map⟩
        have same : (f (max n k + j + 1)).trace.seen = (f (max n k + j)).trace.seen :=
          (const _ (by omega)).trans (const _ (by omega)).symm
        have less := UInt32.lt_iff_toNat_lt.mp ((d.allows (max n k + j)).shallower noMap same)
        have assoc : max n k + (j + 1) = max n k + j + 1 := rfl
        rw [assoc]
        omega
  have := shrinks ((f (max n k)).depth.toNat + 1)
  omega

/-- One of the maps comes again just as it was. -/
theorem exists_again (d : Descent s f) :
    ∃ i j, i < j ∧ (f i).IsMap ∧ (f i).Again (f j) := by
  obtain ⟨n, const⟩ := d.seen_const
  have many : {i | n ≤ i ∧ (f i).IsMap}.Infinite := by
    refine Set.infinite_of_not_bddAbove ?_
    rintro ⟨k, bound⟩
    obtain ⟨i, le, map⟩ := d.exists_map const (max n (k + 1))
    have := bound ⟨by omega, map⟩
    omega
  let object (i : Nat) : GoType × UInt64 × UInt32 := ((f i).type, (f i).address, (f i).depth)
  have few : (({t' | ReflTransGen (Refers s) (f 0).type t'} : Set GoType) ×ˢ
      (Set.univ : Set (UInt64 × UInt32))).Finite :=
    (finite_met s (f 0).type).prod Set.finite_univ
  have maps : Set.MapsTo object {i | n ≤ i ∧ (f i).IsMap} (_ ×ˢ Set.univ) :=
    fun i _ => ⟨d.met i, trivial⟩
  obtain ⟨i, ⟨late, map⟩, j, ⟨later, _⟩, before, same⟩ :=
    many.exists_lt_map_eq_of_mapsTo maps few
  obtain ⟨type, place⟩ := Prod.mk.inj same
  obtain ⟨address, depth⟩ := Prod.mk.inj place
  exact ⟨i, j, before, map, type, address, depth, (const i late).trans (const j later).symm⟩

end Descent

/-- Extraction ends exactly when no map that is met is read again inside itself, to the same depth
and with the same addresses visited. -/
theorem ends_iff (s : Source) (t : GoType) (address : UInt64) (depth : UInt32) (trace : Trace) :
    (∃ n outcome, within s n t address depth trace = some outcome) ↔
      ¬ ∃ m m' : Call, ReflTransGen (Calls s) ⟨t, address, depth, trace⟩ m ∧ m.IsMap ∧
        TransGen (Calls s) m m' ∧ m.Again m' := by
  constructor
  · rintro ⟨n, ends⟩ ⟨m, m', reaches, _, inside, again⟩
    have ends : Call.EndsWithin s n ⟨t, address, depth, trace⟩ := ends
    exact (ends.reaches reaches).not_again inside again
  · intro none
    by_contra never
    obtain ⟨f, start, d⟩ := exists_descent (c := ⟨t, address, depth, trace⟩) never
    obtain ⟨i, j, before, map, again⟩ := d.exists_again
    exact none ⟨f i, f j, start ▸ d.reaches (Nat.zero_le i), map, d.inside before, again⟩

section OwnBucket

/-- A reference to a node of the graph. -/
def toNode (address : UInt64) : TypeRef GoType := ⟨address, some (.node address)⟩

/-- A map whose buckets begin with a map of the same type. -/
def ownBucketMap : GoType :=
  .mk { size := 8, align := 8, kindByte := 21, name := utf8 "main.M" } ⟨20, 20⟩
    (.map (toNode 0x3000) (toNode 0x3000) (toNode 0x2000))

def ownBucketType : GoType :=
  .mk { size := 16, align := 8, kindByte := 25, name := utf8 "main.B" } ⟨20, 20⟩
    (.struct [⟨utf8 "m", toNode 0x1000, 0⟩, ⟨utf8 "overflow", toNode 0x3000, 8⟩])

/-- Memory that holds such a map with one entry. Its only bucket lies where the map itself does. -/
def ownBucket : Source where
  memory := (MappedMemory.empty.map 0xC000000000
    ([1, 0, 0xC000000000, 0].flatMap (littleEndianBytes 8)).toArray).toMemory
  pointerWidth := 8
  graph := ((TypeGraph.empty.insert 0x1000 ownBucketMap).insert 0x2000 ownBucketType).insert 0x3000
    (.mk { size := 8, align := 8, kindByte := 12, name := utf8 "uintptr" } ⟨20, 20⟩
      (.basic .uintptr))
  settings := {}

theorem ownBucket_map {read : Reader} {trace : Trace}
    (h : read ownBucketType 0xC000000000 2 trace = none) :
    step ownBucket read ownBucketMap 0xC000000000 1 trace = none := by
  have silent : noteIf (decide (maxBuckets < (1 : UInt64) <<< (0 : UInt64)))
      (.bucketsCapped 0xC000000000 1 maxBuckets) trace = some ((), trace) := rfl
  have first : buckets ownBucket read ownBucketType 8 16 1 1 1 0xC000000000 0 trace = none :=
    bind_of_none h
  exact (bind_of_some silent).trans (bind_of_none first)

theorem ownBucket_bucket {read : Reader} {trace : Trace}
    (h : read ownBucketMap 0xC000000000 1 trace = none) :
    step ownBucket read ownBucketType 0xC000000000 2 trace = none := by
  have first : fields ownBucket read 0xC000000000 1
      [⟨utf8 "m", toNode 0x1000, 0⟩, ⟨utf8 "overflow", toNode 0x3000, 8⟩] trace = none :=
    bind_of_none h
  exact bind_of_none first

/-- Reading the map asks for its bucket, and reading the bucket for the map, without end. -/
theorem within_ownBucket (n : Nat) (trace : Trace) :
    within ownBucket n ownBucketMap 0xC000000000 1 trace = none ∧
      within ownBucket n ownBucketType 0xC000000000 2 trace = none := by
  induction n with
  | zero => exact ⟨rfl, rfl⟩
  | succ n ih => exact ⟨ownBucket_map ih.2, ownBucket_bucket ih.1⟩

end OwnBucket

end Extract

end GoInspect
